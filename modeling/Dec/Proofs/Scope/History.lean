import Dec.Proofs.Scope.Maps

namespace Dec

namespace Chain

variable {α : Type}

theorem find?_eq_findSome? (c : Chain α) (x : String) :
    find? c x = c.findSome? fun b => b.find? x := by
  induction c with
  | nil => rfl
  | cons b outer ih =>
    rw [find?, List.findSome?_cons, ih]
    cases b.find? x <;> rfl

/-- Of the texts that are left of a list, each has its first place before those of the later ones. -/
theorem pairwise_eraseDups (l : List String) :
    l.eraseDups.Pairwise fun x y =>
      x ≠ y ∧ ∃ before after, l = before ++ x :: after ∧ x ∉ before ∧ y ∉ before := by
  match l with
  | [] => exact List.Pairwise.nil
  | a :: rest =>
    rw [List.eraseDups_cons, List.pairwise_cons]
    constructor
    · intro y hy
      rw [List.mem_eraseDups, List.mem_filter] at hy
      exact ⟨fun h => by simp [h] at hy, [], rest, rfl, List.not_mem_nil, List.not_mem_nil⟩
    · refine (pairwise_eraseDups (rest.filter fun b => !b == a)).imp_of_mem ?_
      rintro x y hx hy ⟨hne, before, after, hsplit, hxb, hyb⟩
      rw [List.mem_eraseDups, List.mem_filter] at hx hy
      obtain ⟨u, v, rfl, hu, hv⟩ := List.filter_eq_append_iff.mp hsplit
      obtain ⟨v₁, v₂, rfl, hv₁, -, -⟩ := List.filter_eq_cons_iff.mp hv
      -- a text that the filter keeps and that is not before `x` afterwards was not before it either
      have hfresh : ∀ z, (!z == a) = true → z ∉ before → z ∉ u ++ v₁ := by
        intro z hz hzb hmem
        rcases List.mem_append.mp hmem with hmem | hmem
        · exact hzb (hu ▸ List.mem_filter.mpr ⟨hmem, hz⟩)
        · exact hv₁ z hmem hz
      refine ⟨hne, a :: (u ++ v₁), v₂, by simp, ?_, ?_⟩
      · rw [List.mem_cons, not_or]
        exact ⟨fun h => by simp [h] at hx, hfresh x hx.2 hxb⟩
      · rw [List.mem_cons, not_or]
        exact ⟨fun h => by simp [h] at hy, hfresh y hy.2 hyb⟩
termination_by l.length
decreasing_by
  rw [List.length_cons]
  exact Nat.lt_succ_of_le (List.length_filter_le ..)

/-- A visible name comes before another one if its innermost scope is further in, or if that is the
innermost one of both and lists it first. -/
theorem pairwise_visible (c : Chain α) :
    (visible c).Pairwise fun x y => x ≠ y ∧ ∃ before b after, c = before ++ b :: after ∧
      (∀ d ∈ before, x ∉ d.names ∧ y ∉ d.names) ∧ ∃ l r, b.names = l ++ x :: r ∧ y ∉ l := by
  refine (pairwise_eraseDups (c.flatMap Bindings.names)).imp ?_
  rintro x y ⟨hne, l, r, hsplit, hx, hy⟩
  refine ⟨hne, ?_⟩
  clear hne
  induction c generalizing l with
  | nil => simp at hsplit
  | cons b outer ih =>
    -- the first place of `x` is past the names of this scope or among them
    rw [List.flatMap_cons, List.append_eq_append_iff] at hsplit
    rcases hsplit with ⟨l', rfl, hrest⟩ | ⟨r', hnames, hrest⟩
    · rw [List.mem_append, not_or] at hx hy
      obtain ⟨before, d, after, rfl, hbefore, hd⟩ := ih l' hrest hx.2 hy.2
      refine ⟨b :: before, d, after, rfl, ?_, hd⟩
      intro e he
      rcases List.mem_cons.mp he with rfl | he
      · exact ⟨hx.1, hy.1⟩
      · exact hbefore e he
    · cases r' with
      -- the names of this scope end just before `x`
      | nil =>
        rw [List.append_nil] at hnames
        rw [List.nil_append] at hrest
        obtain ⟨before, d, after, rfl, hbefore, hd⟩ := ih [] hrest.symm List.not_mem_nil List.not_mem_nil
        refine ⟨b :: before, d, after, rfl, ?_, hd⟩
        intro e he
        rcases List.mem_cons.mp he with rfl | he
        · exact hnames ▸ ⟨hx, hy⟩
        · exact hbefore e he
      | cons z r' =>
        obtain ⟨rfl, -⟩ := List.cons_eq_cons.mp hrest
        exact ⟨[], b, outer, rfl, by simp, l, r', hnames, hy⟩

theorem mem_visible_iff (c : Chain α) (x : String) : x ∈ visible c ↔ contains c x = true := by
  rw [visible, List.mem_eraseDups, List.mem_flatMap, contains, Option.isSome_iff_ne_none,
    find?_eq_findSome?, Ne, List.findSome?_eq_none_iff]
  simp only [Bindings.find?_eq_none_iff]
  push Not
  rfl

end Chain

namespace Store

variable {α : Type}

/-- The scopes after a request. One that cannot be met changes nothing. -/
def Request.apply (s : Store α) : Request α → Store α
  | make outer => (s.add outer).1
  | define id name value => s.define id name value
  | remove id name => (s.remove? id name).getD s
  | clear id => s.clear id

def ofHistory (history : List (Request α)) : Store α :=
  history.foldl (fun s r => r.apply s) .empty

theorem ofHistory_concat (history : List (Request α)) (r : Request α) :
    ofHistory (history ++ [r]) = r.apply (ofHistory history) := by
  rw [ofHistory, List.foldl_append]
  rfl

section Changes

variable (s : Store α) (t u : Nat) (b : Bindings α) (outer : Option Nat)

/-- There is nothing to change in a scope that was not made. -/
theorem update_of_ge {s : Store α} {t : Nat} (h : s.scopes.length ≤ t) (b : Bindings α) :
    s.update t b = s := by
  rw [update, List.modify_eq_self h]

theorem bindings_update :
    (s.update t b).bindings u = if u = t ∧ t < s.scopes.length then b else s.bindings u := by
  rw [update, bindings, bindings, List.getElem?_modify]
  by_cases hu : t = u
  · subst hu
    by_cases ht : t < s.scopes.length
    · simp [ht]
    · simp [ht]
  · simp [hu, Ne.symm hu]

theorem bindings_add : (s.add outer).1.bindings u = s.bindings u := by
  rw [add, bindings, bindings]
  dsimp only
  rcases Nat.lt_trichotomy u s.scopes.length with hlt | rfl | hgt
  · rw [List.getElem?_append_left hlt]
  · simp
  · rw [List.getElem?_eq_none (by simp; omega), List.getElem?_eq_none (by omega)]

/-- The scopes around a scope stay when its bindings change. -/
theorem outer_update :
    (s.update t b).scopes.map Enclosed.outer = s.scopes.map Enclosed.outer := by
  rw [update]
  dsimp only
  refine List.ext_getElem? fun i => ?_
  rw [List.getElem?_map, List.getElem?_map, List.getElem?_modify]
  cases s.scopes[i]? with
  | none => rfl
  | some scope =>
    by_cases hi : t = i
    · simp [hi]
    · simp [hi]

end Changes

structure Represents (s : Store α) (history : List (Request α)) : Prop where
  outers : ∀ t : Nat, (Maps.after history).outers[t]? =
    (s.scopes[t]?).map fun scope => scope.outer.filter (· < t)
  lists : ∀ t, Lists history t (s.bindings t)

section Represents

variable {s : Store α} {history : List (Request α)} {r : Request α}

theorem empty_represents : (empty : Store α).Represents [] := by
  refine ⟨fun t => rfl, fun t => ⟨List.nodup_nil, fun x => rfl, ?_, List.Pairwise.nil⟩⟩
  intro x hx
  cases hx

theorem Represents.length_eq (h : s.Represents history) :
    (Maps.after history).outers.length = s.scopes.length := by
  refine Nat.le_antisymm ?_ ?_
  · rw [← List.getElem?_eq_none_iff.trans (Iff.rfl), h.outers]
    simp
  · rw [← List.getElem?_eq_none_iff, ← Option.map_eq_none_iff, ← h.outers]
    simp

/-- Scopes whose maps a request does not change go on as they are. -/
theorem Represents.same (h : s.Represents history)
    (houters : ((Maps.after history).apply r).outers = (Maps.after history).outers)
    (hheld : ∀ t x, ((Maps.after history).apply r).held t x = (Maps.after history).held t x) :
    s.Represents (history ++ [r]) := by
  rw [← Maps.after_concat] at houters hheld
  refine ⟨fun t => by rw [houters, h.outers], fun t => ?_⟩
  exact (h.lists t).keep (List.Sublist.refl _) fun x => by rw [hheld, (h.lists t).find?_eq]

/-- Scopes of which a request changes one go on as they are but for that one. -/
theorem Represents.update (h : s.Represents history) {t : Nat} {b : Bindings α}
    (houters : ((Maps.after history).apply r).outers = (Maps.after history).outers)
    (htarget : r.target = some t) (ht : t < s.scopes.length) (hb : Lists (history ++ [r]) t b) :
    (s.update t b).Represents (history ++ [r]) := by
  constructor
  · intro u
    rw [Maps.after_concat, houters, h.outers]
    have hscopes := congrArg (·[u]?) (outer_update s t b)
    simp only [List.getElem?_map] at hscopes
    have hmap := congrArg (Option.map fun outer : Option Nat => outer.filter (· < u)) hscopes
    simp only [Option.map_map] at hmap
    exact hmap.symm
  · -- what the other scopes list does not change, and neither does what they hold
    intro u
    rw [bindings_update]
    by_cases hu : u = t
    · rw [if_pos ⟨hu, ht⟩, hu]
      exact hb
    · rw [if_neg fun hsame => hu hsame.1]
      refine (h.lists u).keep (List.Sublist.refl _) fun x => ?_
      rw [Maps.after_concat, Maps.held_apply_of_target_ne _ (by simpa [htarget] using Ne.symm hu),
        (h.lists u).find?_eq]

theorem Represents.make (h : s.Represents history) (outer : Option Nat) :
    (s.add outer).1.Represents (history ++ [.make outer]) := by
  have hs := Maps.after_concat history (.make outer)
  constructor
  · intro t
    rw [hs, Maps.apply, add]
    dsimp only
    rcases Nat.lt_trichotomy t s.scopes.length with hlt | rfl | hgt
    · rw [List.getElem?_append_left (h.length_eq ▸ hlt), List.getElem?_append_left hlt, h.outers]
    · rw [List.getElem?_concat_length, ← h.length_eq, List.getElem?_concat_length]
      rfl
    · rw [List.getElem?_eq_none (by simp [h.length_eq]; omega), List.getElem?_eq_none (by simp; omega)]
      rfl
  · intro t
    rw [bindings_add]
    exact (h.lists t).keep (List.Sublist.refl _) fun x => by rw [hs, (h.lists t).find?_eq]; rfl

theorem Represents.define (h : s.Represents history) (t : Nat) (x : String) (v : Option α) :
    (s.define t x v).Represents (history ++ [.define t x v]) := by
  by_cases ht : t < s.scopes.length
  · have hs : (Maps.after history).apply (.define t x v) =
        { Maps.after history with
          held := fun u y => if u = t ∧ y = x then some v else (Maps.after history).held u y } :=
      if_pos (h.length_eq ▸ ht)
    have hfind : ∀ y, ((s.bindings t).define x v).find? y =
        (Maps.after (history ++ [.define t x v])).held t y := by
      intro y
      rw [Maps.after_concat, hs, Bindings.find?_define, (h.lists t).find?_eq]
      simp
    refine h.update (by rw [hs]) rfl ht ?_
    by_cases hx : x ∈ (s.bindings t).names
    · refine (h.lists t).keep ?_ hfind
      rw [Bindings.names_define, if_pos hx]
    · refine (h.lists t).concat rfl hx ?_ hfind
      rw [Bindings.names_define, if_neg hx]
  · have hs : s.define t x v = s := update_of_ge (Nat.not_lt.mp ht) _
    have hm : (Maps.after history).apply (.define t x v) = Maps.after history :=
      if_neg (h.length_eq ▸ ht)
    rw [hs]
    exact h.same (by rw [hm]) fun u y => by rw [hm]

/-- A name can be taken out of a scope just when the scope holds it. -/
theorem Represents.remove?_eq_none_iff (h : s.Represents history) (t : Nat) (x : String) :
    s.remove? t x = none ↔ (Maps.after history).held t x = none := by
  rw [remove?, Option.map_eq_none_iff, Bindings.remove?, Bindings.contains, (h.lists t).find?_eq]
  cases (Maps.after history).held t x with
  | none => simp
  | some v => simp

theorem Represents.remove (h : s.Represents history) (t : Nat) (x : String) :
    ((Request.remove t x).apply s).Represents (history ++ [.remove t x]) := by
  rw [Request.apply]
  by_cases hheld : (Maps.after history).held t x = none
  · rw [(h.remove?_eq_none_iff t x).mpr hheld, Option.getD_none]
    refine h.same rfl fun u y => ?_
    rw [Maps.apply]
    dsimp only
    split
    · rename_i hsame
      rw [hsame.1, hsame.2, hheld]
    · rfl
  · -- a scope that holds something was made
    have ht : t < s.scopes.length := by
      rw [← h.length_eq]
      exact Nat.lt_of_not_le fun hge => hheld (Maps.held_of_not_made history hge x)
    have hcontains : (s.bindings t).contains x = true := by
      rw [Bindings.contains, (h.lists t).find?_eq, Option.isSome_iff_ne_none]
      exact hheld
    rw [remove?, Bindings.remove?, if_pos hcontains, Option.map_some, Option.getD_some]
    refine h.update rfl rfl ht ((h.lists t).keep (Bindings.names_filter_sublist _ x) fun y => ?_)
    rw [Maps.after_concat, Bindings.find?_filter, (h.lists t).find?_eq, Maps.apply]
    simp

theorem Represents.clear (h : s.Represents history) (t : Nat) :
    (s.clear t).Represents (history ++ [.clear t]) := by
  by_cases ht : t < s.scopes.length
  · refine h.update rfl rfl ht ((h.lists t).keep (List.nil_sublist _) fun y => ?_)
    rw [Maps.after_concat, Maps.apply]
    simp [Bindings.find?, Bindings.empty]
  · have hs : s.clear t = s := update_of_ge (Nat.not_lt.mp ht) _
    rw [hs]
    refine h.same rfl fun u y => ?_
    rw [Maps.apply]
    dsimp only
    split
    · rename_i hsame
      rw [hsame, Maps.held_of_not_made history (h.length_eq ▸ Nat.not_lt.mp ht)]
    · rfl

/-- One request keeps scopes and history together. -/
theorem Represents.step (h : s.Represents history) (r : Request α) :
    (r.apply s).Represents (history ++ [r]) := by
  cases r with
  | make outer => exact h.make outer
  | define id name value => exact h.define id name value
  | remove id name => exact h.remove id name
  | clear id => exact h.clear id

theorem ofHistory_represents (history : List (Request α)) :
    (ofHistory history).Represents history := by
  induction history using List.reverseRecOn with
  | nil => exact empty_represents
  | append_singleton history r ih =>
    rw [ofHistory_concat]
    exact ih.step r

end Represents

section Lookups

variable {s : Store α} {history : List (Request α)} {t : Nat} {path : List Nat}

/-- Every scope that was made has its way out. -/
theorem Represents.exists_outwards (h : s.Represents history) (t : Nat)
    (ht : t < s.scopes.length) : ∃ path, (Maps.after history).Outwards t path := by
  induction t using Nat.strongRecOn with
  | ind t ih =>
    have houter : (Maps.after history).outers[t]? = some (s.scopes[t].outer.filter (· < t)) := by
      rw [h.outers, List.getElem?_eq_getElem ht, Option.map_some]
    cases hp : s.scopes[t].outer.filter (· < t) with
    | none => exact ⟨[t], .outermost (hp ▸ houter)⟩
    | some p =>
      have hlt : p < t := by simpa using (Option.filter_eq_some_iff.mp hp).2
      obtain ⟨path, hpath⟩ := ih p hlt (Nat.lt_trans hlt ht)
      exact ⟨t :: path, .inside (hp ▸ houter) hlt hpath⟩

/-- The scopes that a scope sees are those on its way out. -/
theorem Represents.chain_eq (h : s.Represents history)
    (hp : (Maps.after history).Outwards t path) : s.chain t = path.map s.bindings := by
  -- both ways out of a scope begin with the scope itself
  have hscope : ∀ (t : Nat) (outer : Option Nat), (Maps.after history).outers[t]? = some outer →
      s.chain t = s.bindings t :: (outer.map s.chain).getD [] := by
    intro t outer houter
    rw [h.outers, Option.map_eq_some_iff] at houter
    obtain ⟨⟨outer, b⟩, hscope, rfl⟩ := houter
    rw [chain, bindings, hscope]
    cases outer with
    | none => rfl
    | some p =>
      by_cases hlt : p < t
      · simp [hlt, Option.filter]
      · simp [hlt, Option.filter]
  induction hp with
  | outermost houter =>
    rw [hscope _ _ houter]
    rfl
  | inside houter hlt hp ih =>
    rw [hscope _ _ houter, Option.map_some, Option.getD_some, ih, List.map_cons]

theorem Represents.find?_eq (h : s.Represents history) (hp : (Maps.after history).Outwards t path)
    (x : String) : s.find? t x = path.findSome? fun u => (Maps.after history).held u x := by
  rw [find?, Chain.find?_eq_findSome?, h.chain_eq hp, List.findSome?_map]
  congr 1
  funext u
  exact (h.lists u).find?_eq x

theorem Represents.not_mem_names_iff (h : s.Represents history) (u : Nat) (x : String) :
    x ∉ (s.bindings u).names ↔ (Maps.after history).held u x = none := by
  rw [← Bindings.find?_eq_none_iff, (h.lists u).find?_eq]

/-- A name comes before another one on a path: where the first of them is met only that one is held,
or it came in before. -/
def Precedes (history : List (Request α)) (path : List Nat) (x y : String) : Prop :=
  ∃ before u after, path = before ++ u :: after ∧
    (∀ w ∈ before, (Maps.after history).held w x = none ∧ (Maps.after history).held w y = none) ∧
    (Maps.after history).held u x ≠ none ∧
    ((Maps.after history).held u y = none ∨ InsertedBefore history u x y)

structure LooksUp (s : Store α) (history : List (Request α)) (t : Nat) (path : List Nat) : Prop where
  found : ∀ x v, s.find? t x = some v ↔
    ∃ u i, (Maps.after history).Nearest path x u ∧ AssignedLast history u x v i
  missing : ∀ x, s.find? t x = none ↔ ∀ u ∈ path, (Maps.after history).held u x = none
  contains : ∀ x, (s.chain t).contains x = true ↔ ∃ u ∈ path, (Maps.after history).held u x ≠ none
  get_found : ∀ x v default, s.find? t x = some v → s.get t x default = v
  get_missing : ∀ x default, s.find? t x = none → s.get t x default = default
  visible_nodup : (s.chain t).visible.Nodup
  mem_visible : ∀ x, x ∈ (s.chain t).visible ↔ (s.chain t).contains x = true
  visible_order : (s.chain t).visible.Pairwise (Precedes history path)

theorem Represents.found_iff (h : s.Represents history) (hp : (Maps.after history).Outwards t path)
    (x : String) (v : Option α) : s.find? t x = some v ↔
      ∃ u i, (Maps.after history).Nearest path x u ∧ AssignedLast history u x v i := by
  rw [h.find?_eq hp, List.findSome?_eq_some_iff]
  constructor
  · rintro ⟨before, u, after, hpath, hu, hbefore⟩
    obtain ⟨i, hi⟩ := (held_eq_some_iff history u x v).mp hu
    exact ⟨u, i, ⟨before, after, hpath, hbefore, by simp [hu]⟩, hi⟩
  · rintro ⟨u, i, ⟨before, after, hpath, hbefore, -⟩, hi⟩
    exact ⟨before, u, after, hpath, (held_eq_some_iff history u x v).mpr ⟨i, hi⟩, hbefore⟩

theorem Represents.missing_iff (h : s.Represents history)
    (hp : (Maps.after history).Outwards t path) (x : String) :
    s.find? t x = none ↔ ∀ u ∈ path, (Maps.after history).held u x = none := by
  rw [h.find?_eq hp, List.findSome?_eq_none_iff]

/-- Names are visible in the order of the path, and those of one scope in the order in which they came
in. -/
theorem Represents.pairwise_precedes (h : s.Represents history)
    (hp : (Maps.after history).Outwards t path) :
    (s.chain t).visible.Pairwise (Precedes history path) := by
  refine (Chain.pairwise_visible (s.chain t)).imp ?_
  rintro x y ⟨hne, before, b, after, hchain, hbefore, l, r, hnames, hy⟩
  rw [h.chain_eq hp, List.map_eq_append_iff] at hchain
  obtain ⟨before', rest, rfl, rfl, hrest⟩ := hchain
  obtain ⟨u, after', rfl, rfl, rfl⟩ := List.map_eq_cons_iff.mp hrest
  refine ⟨before', u, after', rfl, fun w hw => ?_, ?_, ?_⟩
  · obtain ⟨hxw, hyw⟩ := hbefore _ (List.mem_map_of_mem hw)
    exact ⟨(h.not_mem_names_iff w x).mp hxw, (h.not_mem_names_iff w y).mp hyw⟩
  · rw [Ne, ← h.not_mem_names_iff, not_not, hnames]
    exact List.mem_append_cons_self
  · -- `y` is listed after `x` in this scope or not at all
    by_cases hyr : y ∈ r
    · have horder := (h.lists u).order
      rw [hnames, List.pairwise_append, List.pairwise_cons] at horder
      exact .inr (horder.2.1.1 y hyr)
    · rw [← h.not_mem_names_iff, hnames]
      exact .inl (by simp [hy, hyr, Ne.symm hne])

theorem Represents.looksUp (h : s.Represents history) (hp : (Maps.after history).Outwards t path) :
    s.LooksUp history t path where
  found := h.found_iff hp
  missing := h.missing_iff hp
  contains x := by
    rw [Chain.contains, Option.isSome_iff_ne_none, Ne]
    exact (not_congr (h.missing_iff hp x)).trans (by push Not; rfl)
  get_found x v default hx := by rw [get, hx, Option.getD_some]
  get_missing x default hx := by rw [get, hx, Option.getD_none]
  visible_nodup := (Chain.pairwise_visible (s.chain t)).imp fun hxy => hxy.1
  mem_visible := Chain.mem_visible_iff (s.chain t)
  visible_order := h.pairwise_precedes hp

end Lookups

section Reach

variable {s : Store α} {history : List (Request α)} {r : Request α} {t w : Nat} {x : String}

/-- A change to a scope is seen from inside unless a scope on the way there holds the name. -/
theorem Represents.find?_apply_of_seen (h : s.Represents history) (hr : r.target = some t)
    {before after : List Nat} (hp : (Maps.after history).Outwards w (before ++ t :: after))
    (hbefore : ∀ u ∈ before, (Maps.after history).held u x = none) :
    (r.apply s).find? w x = (r.apply s).find? t x := by
  have hr' := h.step r
  have hw := hp.apply r
  rw [← Maps.after_concat] at hw
  rw [hr'.find?_eq hw, hr'.find?_eq hw.rest, List.findSome?_append,
    List.findSome?_eq_none_iff.mpr ?_, Option.none_or]
  -- the scopes before the changed one are others, which still do not hold the name
  intro u hu
  have hne : t ≠ u := by
    rintro rfl
    exact List.disjoint_of_nodup_append hp.nodup hu List.mem_cons_self
  rw [Maps.after_concat, Maps.held_apply_of_target_ne _ (by simpa [hr] using hne)]
  exact hbefore u hu

/-- A change to a scope that is not on a path, or only behind one that holds the name, is not seen. -/
theorem Represents.find?_apply_of_hidden (h : s.Represents history) {path : List Nat}
    (hp : (Maps.after history).Outwards w path)
    (hidden : ∀ t before after, r.target = some t → path = before ++ t :: after →
      ∃ u ∈ before, (Maps.after history).held u x ≠ none) :
    (r.apply s).find? w x = s.find? w x := by
  have hw := hp.apply r
  rw [← Maps.after_concat] at hw
  rw [(h.step r).find?_eq hw, h.find?_eq hp]
  simp only [Maps.after_concat]
  have hsame : ∀ us : List Nat, (∀ u ∈ us, r.target ≠ some u) →
      (us.findSome? fun u => ((Maps.after history).apply r).held u x) =
        us.findSome? fun u => (Maps.after history).held u x := by
    intro us hus
    induction us with
    | nil => rfl
    | cons u us ih =>
      rw [List.forall_mem_cons] at hus
      rw [List.findSome?_cons, List.findSome?_cons, Maps.held_apply_of_target_ne _ hus.1, ih hus.2]
  by_cases hon : ∃ t ∈ path, r.target = some t
  · obtain ⟨t, ht, hr⟩ := hon
    obtain ⟨before, after, rfl⟩ := List.append_of_mem ht
    obtain ⟨u, hu, hheld⟩ := hidden t before after hr rfl
    -- the lookup ends before it gets to the changed scope
    have hbefore : (before.findSome? fun u => (Maps.after history).held u x).isSome := by
      rw [List.findSome?_isSome_iff]
      exact ⟨u, hu, Option.isSome_iff_ne_none.mpr hheld⟩
    obtain ⟨v, hv⟩ := Option.isSome_iff_exists.mp hbefore
    rw [List.findSome?_append, List.findSome?_append, hsame before ?_, hv, Option.some_or,
      Option.some_or]
    intro u' hu' hsame'
    obtain rfl := Option.some.inj (hr.symm.trans hsame')
    exact List.disjoint_of_nodup_append hp.nodup hu' List.mem_cons_self
  · exact hsame path fun u hu hr => hon ⟨u, hu, hr⟩

/-- The local items of the scopes that a request is not for stay. -/
theorem bindings_apply_of_target_ne (s : Store α) {u : Nat} (h : r.target ≠ some u) :
    (r.apply s).bindings u = s.bindings u := by
  cases r with
  | make outer => exact bindings_add s u outer
  | define id name value =>
    rw [Request.apply, Store.define, bindings_update, if_neg fun hu => h (by simp [Request.target, hu.1])]
  | remove id name =>
    rw [Request.apply, remove?]
    cases (s.bindings id).remove? name with
    | none => rfl
    | some b =>
      rw [Option.map_some, Option.getD_some, bindings_update,
        if_neg fun hu => h (by simp [Request.target, hu.1])]
  | clear id =>
    rw [Request.apply, Store.clear, bindings_update, if_neg fun hu => h (by simp [Request.target, hu.1])]

end Reach

structure NestedMaps (s : Store α) (history : List (Request α)) : Prop where
  /-- Scopes list what was assigned last, in the order in which the names came in. -/
  items : ∀ t, Lists history t (s.bindings t)
  assigned : ∀ t x v, (x, v) ∈ (s.bindings t).entries ↔ ∃ i, AssignedLast history t x v i
  /-- Every scope has its way out and looks names up along it. -/
  ways : ∀ t < s.scopes.length, ∃ path, (Maps.after history).Outwards t path
  lookups : ∀ t path, (Maps.after history).Outwards t path → s.LooksUp history t path
  /-- Only what a scope holds can be taken out, and failing changes nothing. -/
  removes : ∀ t x, s.remove? t x = none ↔ (Maps.after history).held t x = none
  failed : ∀ t x, s.remove? t x = none → (Request.remove t x).apply s = s
  /-- A request changes what one scope holds, and what is seen of it. -/
  others : ∀ (r : Request α) u, r.target ≠ some u → (r.apply s).bindings u = s.bindings u
  seen : ∀ (r : Request α) t w before after x, r.target = some t →
    (Maps.after history).Outwards w (before ++ t :: after) →
    (∀ u ∈ before, (Maps.after history).held u x = none) →
    (r.apply s).find? w x = (r.apply s).find? t x
  hidden : ∀ (r : Request α) w path x, (Maps.after history).Outwards w path →
    (∀ t before after, r.target = some t → path = before ++ t :: after →
      ∃ u ∈ before, (Maps.after history).held u x ≠ none) →
    (r.apply s).find? w x = s.find? w x

/-- Whatever is asked of scopes, they go on being nested maps. -/
theorem ofHistory_nestedMaps (history : List (Request α)) :
    (ofHistory history).NestedMaps history := by
  have h := ofHistory_represents history
  refine ⟨h.lists, fun t x v => ?_, h.exists_outwards, fun t path hp => h.looksUp hp,
    h.remove?_eq_none_iff, fun t x hx => ?_, fun r u hu => bindings_apply_of_target_ne _ hu, ?_, ?_⟩
  · rw [Bindings.mem_entries_iff _ (h.lists t).distinct, (h.lists t).find?_eq, held_eq_some_iff]
  · rw [Request.apply, hx, Option.getD_none]
  · intro r t w before after x hr hp hbefore
    exact h.find?_apply_of_seen hr hp hbefore
  · intro r w path x hp hidden
    exact h.find?_apply_of_hidden hp hidden

/-- A missing value hides the one outside until its name is taken out. -/
example :
    let inner : List (Request Nat) :=
      [.make none, .define 0 "x" (some 1), .make (some 0), .define 1 "x" none]
    (ofHistory inner).get 1 "x" (some 2) = none ∧
      (ofHistory (inner ++ [.remove 1 "x"])).get 1 "x" (some 2) = some 1 := by
  cbv

end Store

end Dec
