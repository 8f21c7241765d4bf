import Dec.Proofs.Scope.EditDistance
import Dec.Proofs.Scope.History
import Mathlib.Data.List.Nodup

namespace Dec

section Sorting

variable {β : Type} (key : β → Nat)

theorem keyLe_trans (x y z : β) (hxy : decide (key x ≤ key y) = true)
    (hyz : decide (key y ≤ key z) = true) : decide (key x ≤ key z) = true := by
  simp only [decide_eq_true_eq] at hxy hyz ⊢
  exact hxy.trans hyz

theorem keyLe_total (x y : β) : (decide (key x ≤ key y) || decide (key y ≤ key x)) = true := by
  simpa using Nat.le_total (key x) (key y)

/-- A stable sort by a key keeps the order of those that have one key. -/
theorem filter_mergeSort_key (l : List β) (k : Nat) :
    (l.mergeSort fun x y => decide (key x ≤ key y)).filter (fun x => key x = k) =
      l.filter fun x => key x = k := by
  have hsorted : (l.filter fun x => key x = k).Pairwise fun x y => decide (key x ≤ key y) = true := by
    refine List.pairwise_of_forall_mem_list fun x hx y hy => ?_
    have hxk : key x = k := by simpa using (List.mem_filter.mp hx).2
    have hyk : key y = k := by simpa using (List.mem_filter.mp hy).2
    simp [hxk, hyk]
  -- what has that key is sorted already, so the sort has it as a sublist, of the same length
  have hsublist := List.sublist_mergeSort (keyLe_trans key) (keyLe_total key) hsorted
    List.filter_sublist
  have hfiltered := hsublist.filter fun x => decide (key x = k)
  simp only [List.filter_filter, Bool.and_self] at hfiltered
  refine (hfiltered.eq_of_length ?_).symm
  exact ((List.mergeSort_perm l _).filter _).length_eq.symm

/-- A stable sort by a key goes by the key and then by the order of the list. -/
theorem pairwise_mergeSort_key {R : β → β → Prop} {l : List β} (h : l.Pairwise R) :
    (l.mergeSort fun x y => decide (key x ≤ key y)).Pairwise fun x y =>
      key x < key y ∨ key x = key y ∧ R x y := by
  have hsorted := List.pairwise_mergeSort (keyLe_trans key) (keyLe_total key) l
  rw [List.pairwise_iff_forall_sublist] at hsorted h ⊢
  intro x y hxy
  have hle : key x ≤ key y := of_decide_eq_true (hsorted hxy)
  rcases Nat.lt_or_eq_of_le hle with hlt | heq
  · exact .inl hlt
  · refine .inr ⟨heq, h ?_⟩
    have hpair := hxy.filter fun z => decide (key z = key y)
    rw [filter_mergeSort_key] at hpair
    simp only [List.filter_cons, heq, decide_true, if_true, List.filter_nil] at hpair
    exact hpair.trans List.filter_sublist

end Sorting

namespace Chain

variable {α : Type}

/-- A visible name is seen before another one: its innermost scope is further in, or is the innermost
one of both and lists it first. -/
def SeenBefore (c : Chain α) (x y : String) : Prop :=
  ∃ before b after, c = before ++ b :: after ∧ (∀ d ∈ before, x ∉ d.names ∧ y ∉ d.names) ∧
    ∃ l r, b.names = l ++ x :: r ∧ y ∉ l

/-- One name is suggested rather than another: it is nearer to the given one, or as near and seen
before. -/
def Precedes (c : Chain α) (name x y : String) : Prop :=
  nameDistance name x < nameDistance name y ∨
    nameDistance name x = nameDistance name y ∧ c.SeenBefore x y

structure Ranks (c : Chain α) (name : String) (within : Int) (ranking : List String) : Prop where
  nodup : ranking.Nodup
  mem_iff : ∀ v, v ∈ ranking ↔ c.contains v = true ∧ (nameDistance name v : Int) ≤ within
  ordered : ranking.Pairwise (c.Precedes name)

/-- What is promised of suggestions: they are the first five of all visible names within the distance,
none of them twice, and a name that is left out is as far as each of five that are not. -/
structure Suggests (c : Chain α) (name : String) (within : Int) (names : List String) : Prop where
  first : ∃ ranking, c.Ranks name within ranking ∧ names = ranking.take 5
  nodup : names.Nodup
  visible : ∀ v ∈ names, c.contains v = true ∧ (nameDistance name v : Int) ≤ within
  left : ∀ v, c.contains v = true → (nameDistance name v : Int) ≤ within → v ∉ names →
    names.length = 5 ∧ ∀ w ∈ names, nameDistance name w ≤ nameDistance name v

variable {c : Chain α} {name : String} {within : Int} {ranking : List String}

theorem pairwise_seenBefore (c : Chain α) : (visible c).Pairwise c.SeenBefore :=
  (pairwise_visible c).imp And.right

/-- The sorted names rank those within the distance. -/
theorem exists_ranks (c : Chain α) (name : String) (within : Int) :
    ∃ ranking, c.Ranks name within ranking ∧ c.similar name within = ranking.take 5 := by
  let near : List (String × Nat) := ((visible c).map fun v => (v, nameDistance name v)).filter
    fun (v : String × Nat) => decide ((v.2 : Int) ≤ within)
  let sorted : List (String × Nat) := near.mergeSort fun a b => decide (a.2 ≤ b.2)
  have hnear : near = ((visible c).filter fun v => decide ((nameDistance name v : Int) ≤ within)).map
      fun v => (v, nameDistance name v) := by
    simp only [near, List.filter_map, Function.comp_def]
  have hnames : near.map Prod.fst =
      (visible c).filter fun v => decide ((nameDistance name v : Int) ≤ within) := by
    rw [hnear, List.map_map, Function.comp_def, List.map_id']
  have hperm := (List.mergeSort_perm near fun a b => decide (a.2 ≤ b.2)).map Prod.fst
  rw [hnames] at hperm
  have hdistance : ∀ v ∈ sorted, v.2 = nameDistance name v.1 := by
    intro v hv
    have hmem := (List.mergeSort_perm near _).mem_iff.mp hv
    rw [hnear, List.mem_map] at hmem
    obtain ⟨x, -, rfl⟩ := hmem
    dsimp only
  have hfirst : c.similar name within = (sorted.map Prod.fst).take 5 := by
    rw [similar, mostSuggestions, List.map_take]
  refine ⟨sorted.map Prod.fst, ⟨?_, fun v => ?_, ?_⟩, hfirst⟩
  · rw [hperm.nodup_iff]
    exact List.Pairwise.filter _ ((pairwise_visible c).imp And.left)
  · rw [hperm.mem_iff, List.mem_filter, mem_visible_iff, decide_eq_true_eq]
  · have hseen : near.Pairwise fun a b => c.SeenBefore a.1 b.1 := by
      rw [hnear, List.pairwise_map]
      exact List.Pairwise.filter _ (pairwise_seenBefore c)
    rw [List.pairwise_map]
    refine (pairwise_mergeSort_key Prod.snd hseen).imp_of_mem fun {a b} ha hb h => ?_
    rwa [hdistance a ha, hdistance b hb] at h

/-- The first of a ranking leave out no nearer name. -/
theorem Ranks.suggests (h : c.Ranks name within ranking) :
    c.Suggests name within (ranking.take 5) := by
  refine ⟨⟨ranking, h, rfl⟩, h.nodup.sublist (List.take_sublist _ _), ?_, ?_⟩
  · intro v hv
    exact (h.mem_iff v).mp (List.mem_of_mem_take hv)
  · intro v hvisible hwithin hv
    have hmem : v ∈ ranking.take 5 ++ ranking.drop 5 := by
      rw [List.take_append_drop]
      exact (h.mem_iff v).mpr ⟨hvisible, hwithin⟩
    have hdrop : v ∈ ranking.drop 5 := (List.mem_append.mp hmem).resolve_left hv
    constructor
    · have hpos := List.length_pos_of_mem hdrop
      rw [List.length_drop] at hpos
      rw [List.length_take]
      omega
    · intro w hw
      have hordered := h.ordered
      rw [← List.take_append_drop 5 ranking, List.pairwise_append] at hordered
      rcases hordered.2.2 w hw v hdrop with hlt | ⟨heq, -⟩
      · exact Nat.le_of_lt hlt
      · exact Nat.le_of_eq heq

/-- The distance of two names is the least number of edits that turn one into the other when case is
ignored, and the suggestions for a name are the first five visible names within the given distance. -/
theorem similar_suggests :
    (∀ x y : String, IsLeast {n | EditDistance.Edits n (Text.lower x).toList (Text.lower y).toList}
      (nameDistance x y)) ∧
    ∀ (c : Chain α) (name : String) (within : Int), c.Suggests name within (c.similar name within) := by
  refine ⟨fun x y => EditDistance.isLeast_distance _ _, fun c name within => ?_⟩
  obtain ⟨ranking, hranks, hsimilar⟩ := exists_ranks c name within
  rw [hsimilar]
  exact hranks.suggests

/-- The nearest name comes first though an outer scope has it. Of the others, which are equally near, those
of the inner scope come first, in the order of that scope. -/
example : similar (α := Nat) [⟨[("totem", none), ("TOTAL", some 1), ("x", none)]⟩,
    ⟨[("total", none), ("totl", some 2)]⟩] "totl" 2 = ["totl", "TOTAL", "total", "totem"] := by
  cbv

end Chain

end Dec
