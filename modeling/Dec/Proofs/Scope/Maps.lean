import Dec.Proofs.Scope.Lookup
import Dec.Scope.Store
import Mathlib.Data.List.Nodup
import Mathlib.Data.List.Induction

/-!
Nested maps: what a history of requests leaves in each scope, and which scopes are around each. A scope
may list what it holds in the order in which the names came in when they were last absent.
-/
namespace Dec

namespace Bindings

variable {α : Type} (b : Bindings α) (name x : String)

theorem find?_eq_none_iff : b.find? x = none ↔ x ∉ b.names := by
  rw [find?, List.lookup_eq_none_iff, names, List.mem_map]
  constructor
  · rintro h ⟨e, he, rfl⟩
    exact absurd (h e he) (by simp)
  · intro h e he
    rw [bne_iff_ne]
    rintro rfl
    exact h ⟨e, he, rfl⟩

theorem names_setEntry (value : Option α) (entries : List (String × Option α)) :
    (setEntry name value entries).map (·.1) =
      if name ∈ entries.map (·.1) then entries.map (·.1) else entries.map (·.1) ++ [name] := by
  induction entries with
  | nil => rfl
  | cons entry rest ih =>
    rw [setEntry]
    by_cases hentry : entry.1 = name
    · rw [if_pos hentry, List.map_cons, List.map_cons, if_pos (by simp [hentry]), hentry]
    · rw [if_neg hentry, List.map_cons, ih, List.map_cons]
      by_cases hrest : name ∈ rest.map (·.1)
      · rw [if_pos hrest, if_pos (List.mem_cons_of_mem _ hrest)]
      · rw [if_neg hrest, if_neg (by simp [Ne.symm hentry, hrest]), List.cons_append]

/-- A new name comes last, and a name that is bound keeps its place. -/
theorem names_define (value : Option α) :
    (b.define name value).names = if name ∈ b.names then b.names else b.names ++ [name] :=
  names_setEntry name value b.entries

theorem find?_filter :
    (⟨b.entries.filter fun e => e.1 ≠ name⟩ : Bindings α).find? x =
      if x = name then none else b.find? x := by
  rw [find?, find?]
  dsimp only
  induction b.entries with
  | nil => simp
  | cons entry rest ih =>
    obtain ⟨y, w⟩ := entry
    rw [List.filter_cons]
    by_cases hy : y = name
    · rw [if_neg (by simp [hy]), ih, lookup_cons_eq]
      by_cases hx : x = name
      · rw [if_pos hx, if_pos hx]
      · rw [if_neg hx, if_neg hx, if_neg (hy ▸ hx)]
    · rw [if_pos (by simp [hy]), lookup_cons_eq, lookup_cons_eq, ih]
      by_cases hx : x = y
      · rw [if_pos hx, if_neg (hx ▸ hy), if_pos hx]
      · rw [if_neg hx, if_neg hx]

theorem names_filter_sublist :
    (⟨b.entries.filter fun e => e.1 ≠ name⟩ : Bindings α).names.Sublist b.names :=
  List.filter_sublist.map _

theorem mem_entries_iff {b : Bindings α} (h : b.names.Nodup) (v : Option α) :
    (x, v) ∈ b.entries ↔ b.find? x = some v := by
  rw [find?, List.lookup_eq_some_iff]
  constructor
  · intro hmem
    obtain ⟨l, r, hsplit⟩ := List.append_of_mem hmem
    refine ⟨l, r, hsplit, fun e he => ?_⟩
    rw [names, hsplit, List.map_append, List.map_cons] at h
    rw [bne_iff_ne]
    rintro rfl
    exact List.disjoint_of_nodup_append h (List.mem_map_of_mem he) List.mem_cons_self
  · rintro ⟨l, r, hsplit, -⟩
    rw [hsplit]
    exact List.mem_append_cons_self

end Bindings

namespace Store

variable {α : Type}

inductive Request (α : Type) where
  | make (outer : Option Nat)
  | define (id : Nat) (name : String) (value : Option α)
  | remove (id : Nat) (name : String)
  | clear (id : Nat)

namespace Request

def target : Request α → Option Nat
  | make _ => none
  | define id _ _ => some id
  | remove id _ => some id
  | clear id => some id

def Settles (t : Nat) (x : String) : Request α → Prop
  | make _ => False
  | define id name _ => id = t ∧ name = x
  | remove id name => id = t ∧ name = x
  | clear id => id = t

theorem Settles.target {t : Nat} {x : String} {r : Request α} (h : r.Settles t x) :
    r.target = some t := by
  cases r with
  | make outer => cases h
  | define id name value => exact congrArg some h.1
  | remove id name => exact congrArg some h.1
  | clear id => exact congrArg some h

end Request

structure Maps (α : Type) where
  outers : List (Option Nat)
  held : Nat → String → Option (Option α)

namespace Maps

def empty : Maps α := ⟨[], fun _ _ => none⟩

/-- The maps after a request. A scope can be made inside an older one only, and nothing can be defined
in a scope that was not made. -/
def apply (m : Maps α) : Request α → Maps α
  | .make outer => { m with outers := m.outers ++ [outer.filter (· < m.outers.length)] }
  | .define t x v =>
    if t < m.outers.length then
      { m with held := fun u y => if u = t ∧ y = x then some v else m.held u y }
    else m
  | .remove t x => { m with held := fun u y => if u = t ∧ y = x then none else m.held u y }
  | .clear t => { m with held := fun u y => if u = t then none else m.held u y }

def after (history : List (Request α)) : Maps α := history.foldl apply empty

theorem after_concat (history : List (Request α)) (r : Request α) :
    after (history ++ [r]) = (after history).apply r := by
  rw [after, List.foldl_append]
  rfl

/-- What no request settles stays. -/
theorem held_apply_of_not_settles (m : Maps α) {r : Request α} {t : Nat} {x : String}
    (h : ¬ r.Settles t x) : (m.apply r).held t x = m.held t x := by
  cases r with
  | make outer => rfl
  | define id name value =>
    rw [apply]
    split
    · exact if_neg fun hsame => h ⟨hsame.1.symm, hsame.2.symm⟩
    · rfl
  | remove id name => exact if_neg fun hsame => h ⟨hsame.1.symm, hsame.2.symm⟩
  | clear id => exact if_neg fun hsame => h hsame.symm

/-- What other scopes hold stays. -/
theorem held_apply_of_target_ne (m : Maps α) {r : Request α} {t : Nat} (h : r.target ≠ some t)
    (x : String) : (m.apply r).held t x = m.held t x :=
  m.held_apply_of_not_settles fun hsettles => h hsettles.target

/-- A scope that was not made holds nothing. -/
theorem held_of_not_made (history : List (Request α)) {t : Nat}
    (h : (after history).outers.length ≤ t) (x : String) : (after history).held t x = none := by
  -- from the last request backwards: there are never fewer scopes than before
  induction history using List.reverseRecOn with
  | nil => rfl
  | append_singleton history r ih =>
    rw [after_concat] at h ⊢
    cases r with
    | make outer =>
      rw [apply, List.length_append] at h
      exact ih (Nat.le_of_add_right_le h)
    | define id name value =>
      rw [apply] at h ⊢
      split at h
      · rename_i hid
        rw [if_pos hid]
        dsimp only at h ⊢
        rw [if_neg (by omega), ih h]
      · rename_i hid
        rw [if_neg hid, ih h]
    | remove id name =>
      rw [apply] at h ⊢
      dsimp only at h ⊢
      rw [ih h, ite_self]
    | clear id =>
      rw [apply] at h ⊢
      dsimp only at h ⊢
      rw [ih h, ite_self]

/-- What a request settles is what it defines, if anything. -/
theorem held_apply_of_settles (history : List (Request α)) {r : Request α} {t : Nat} {x : String}
    (h : r.Settles t x) (v : Option α) :
    ((after history).apply r).held t x = some v ↔
      r = .define t x v ∧ t < (after history).outers.length := by
  cases r with
  | make outer => cases h
  | define id name value =>
    obtain ⟨rfl, rfl⟩ := h
    rw [apply]
    split
    · rename_i hid
      simp [hid]
    · rename_i hid
      simp [hid, held_of_not_made history (Nat.not_lt.mp hid)]
  | remove id name =>
    obtain ⟨rfl, rfl⟩ := h
    simp [apply]
  | clear id =>
    obtain rfl := h
    simp [apply]

inductive Outwards (m : Maps α) : Nat → List Nat → Prop where
  | outermost {t : Nat} (h : m.outers[t]? = some none) : Outwards m t [t]
  | inside {t p : Nat} {path : List Nat} (h : m.outers[t]? = some (some p)) (hlt : p < t)
      (hp : Outwards m p path) : Outwards m t (t :: path)

namespace Outwards

variable {m : Maps α} {t : Nat} {path : List Nat}

/-- The way out leads through older scopes only. -/
theorem le (h : m.Outwards t path) : ∀ u ∈ path, u ≤ t := by
  induction h with
  | outermost h =>
    intro u hu
    exact Nat.le_of_eq (List.mem_singleton.mp hu)
  | inside h hlt hp ih =>
    intro u hu
    rcases List.mem_cons.mp hu with rfl | hu
    · exact Nat.le_refl u
    · exact Nat.le_of_lt (Nat.lt_of_le_of_lt (ih u hu) hlt)

theorem nodup (h : m.Outwards t path) : path.Nodup := by
  induction h with
  | outermost h => exact List.nodup_singleton _
  | inside h hlt hp ih =>
    refine List.nodup_cons.mpr ⟨fun hmem => ?_, ih⟩
    exact absurd (hp.le _ hmem) (Nat.not_le.mpr hlt)

/-- The way out from a scope on the way is the rest of the way. -/
theorem rest {before after : List Nat} {u : Nat} (h : m.Outwards t (before ++ u :: after)) :
    m.Outwards u (u :: after) := by
  -- on the scopes that lie before it, so for any scope to start from
  induction before generalizing t with
  | nil =>
    rw [List.nil_append] at h
    cases h with
    | outermost h => exact .outermost h
    | inside h hlt hp => exact .inside h hlt hp
  | cons w before ih =>
    rw [List.cons_append] at h
    generalize hpath : before ++ u :: after = path at h
    cases h with
    | outermost h => simp at hpath
    | inside h hlt hp =>
      subst hpath
      exact ih hp

/-- A request leaves the way out from a scope that was made before. -/
theorem apply (h : m.Outwards t path) (r : Request α) : (m.apply r).Outwards t path := by
  have houters : ∀ (u : Nat) (o : Option Nat), m.outers[u]? = some o →
      (m.apply r).outers[u]? = some o := by
    intro u o hu
    cases r with
    | make outer =>
      rw [Maps.apply]
      dsimp only
      rw [List.getElem?_append_left (List.getElem?_eq_some_iff.mp hu).1, hu]
    | define id name value =>
      rw [Maps.apply]
      split <;> exact hu
    | remove id name => exact hu
    | clear id => exact hu
  induction h with
  | outermost h => exact .outermost (houters _ _ h)
  | inside h hlt hp ih => exact .inside (houters _ _ h) hlt ih

end Outwards

def Nearest (m : Maps α) (path : List Nat) (x : String) (u : Nat) : Prop :=
  ∃ before after, path = before ++ u :: after ∧ (∀ w ∈ before, m.held w x = none) ∧
    m.held u x ≠ none

end Maps

/-- A request of a history assigned a value, and none after it settled what the scope holds under the
name. -/
structure AssignedLast (history : List (Request α)) (t : Nat) (x : String) (v : Option α) (i : Nat) :
    Prop where
  request : history[i]? = some (.define t x v)
  made : t < (Maps.after (history.take i)).outers.length
  last : ∀ j r, i < j → history[j]? = some r → ¬ r.Settles t x

/-- A request of a history put a name into a scope, which did not hold it then and has held it since.
-/
structure Inserted (history : List (Request α)) (t : Nat) (x : String) (i : Nat) : Prop where
  request : ∃ v, history[i]? = some (.define t x v)
  absent : (Maps.after (history.take i)).held t x = none
  present : ∀ k, i < k → k ≤ history.length → (Maps.after (history.take k)).held t x ≠ none

def InsertedBefore (history : List (Request α)) (t : Nat) (x y : String) : Prop :=
  ∃ i j, i < j ∧ Inserted history t x i ∧ Inserted history t y j

structure Lists (history : List (Request α)) (t : Nat) (b : Bindings α) : Prop where
  distinct : b.names.Nodup
  find?_eq : ∀ x, b.find? x = (Maps.after history).held t x
  inserted : ∀ x ∈ b.names, ∃ i, Inserted history t x i
  order : b.names.Pairwise (InsertedBefore history t)

section Steps

variable {history : List (Request α)} {r : Request α} {t : Nat} {x : String}

theorem AssignedLast.lt_length {v : Option α} {i : Nat} (h : AssignedLast history t x v i) :
    i < history.length :=
  (List.getElem?_eq_some_iff.mp h.request).1

/-- A request that settles nothing about a name does not change what was assigned to it last. -/
theorem assignedLast_concat_of_not_settles (hr : ¬ r.Settles t x) (v : Option α) (i : Nat) :
    AssignedLast (history ++ [r]) t x v i ↔ AssignedLast history t x v i := by
  constructor
  · intro h
    -- the assignment was not the next request, which settles nothing
    have hi : i < history.length := by
      refine Nat.lt_of_le_of_ne (Nat.le_of_lt_succ (by simpa using h.lt_length)) ?_
      rintro rfl
      have hrequest := h.request
      rw [List.getElem?_concat_length, Option.some.injEq] at hrequest
      exact hr (hrequest ▸ ⟨rfl, rfl⟩)
    refine ⟨?_, ?_, fun j r' hj hr' => h.last j r' hj ?_⟩
    · rw [← h.request, List.getElem?_append_left hi]
    · rw [← List.take_append_of_le_length (Nat.le_of_lt hi)]
      exact h.made
    · rw [List.getElem?_append_left (List.getElem?_eq_some_iff.mp hr').1]
      exact hr'
  · intro h
    have hi := h.lt_length
    refine ⟨?_, ?_, fun j r' hj hr' => ?_⟩
    · rw [List.getElem?_append_left hi]
      exact h.request
    · rw [List.take_append_of_le_length (Nat.le_of_lt hi)]
      exact h.made
    · rcases Nat.lt_or_ge j history.length with hlt | hge
      · rw [List.getElem?_append_left hlt] at hr'
        exact h.last j r' hj hr'
      · have hlast := List.mem_of_getElem? ((List.getElem?_append_right hge).symm.trans hr')
        rw [List.mem_singleton.mp hlast]
        exact hr

/-- What the next request settles was assigned by it or not at all. -/
theorem assignedLast_concat_of_settles (hr : r.Settles t x) (v : Option α) (i : Nat) :
    AssignedLast (history ++ [r]) t x v i ↔ i = history.length ∧ r = .define t x v ∧
      t < (Maps.after history).outers.length := by
  constructor
  · intro h
    -- an earlier assignment is not the last one, since the next request settles the name
    have hi : i = history.length := by
      refine Nat.le_antisymm (Nat.le_of_lt_succ (by simpa using h.lt_length)) ?_
      by_contra hlt
      exact h.last history.length r (Nat.lt_of_not_le hlt) List.getElem?_concat_length hr
    subst hi
    have hrequest := h.request
    have hmade := h.made
    rw [List.getElem?_concat_length, Option.some.injEq] at hrequest
    rw [List.take_left] at hmade
    exact ⟨rfl, hrequest, hmade⟩
  · rintro ⟨rfl, rfl, hmade⟩
    refine ⟨List.getElem?_concat_length, ?_, fun j r' hj hr' => ?_⟩
    · rw [List.take_left]
      exact hmade
    · have hlength := (List.getElem?_eq_some_iff.mp hr').1
      rw [List.length_append, List.length_singleton] at hlength
      omega

/-- A scope holds a value under a name just when it was the last one assigned to it there. -/
theorem held_eq_some_iff (history : List (Request α)) (t : Nat) (x : String) (v : Option α) :
    (Maps.after history).held t x = some v ↔ ∃ i, AssignedLast history t x v i := by
  induction history using List.reverseRecOn with
  | nil =>
    constructor
    · intro h
      cases h
    · rintro ⟨i, hi⟩
      exact absurd hi.lt_length (Nat.not_lt_zero i)
  | append_singleton history r ih =>
    rw [Maps.after_concat]
    by_cases hr : r.Settles t x
    · simp only [assignedLast_concat_of_settles hr, Maps.held_apply_of_settles _ hr, exists_eq_left]
    · rw [Maps.held_apply_of_not_settles _ hr, ih]
      simp only [assignedLast_concat_of_not_settles hr]

theorem Inserted.lt_length {i : Nat} (h : Inserted history t x i) : i < history.length := by
  obtain ⟨v, hv⟩ := h.request
  exact (List.getElem?_eq_some_iff.mp hv).1

/-- A name that the next request leaves in a scope keeps the place in time at which it came in. -/
theorem Inserted.concat {i : Nat} (h : Inserted history t x i)
    (hm : (Maps.after (history ++ [r])).held t x ≠ none) : Inserted (history ++ [r]) t x i := by
  have hi := h.lt_length
  refine ⟨?_, ?_, fun k hk hle => ?_⟩
  · rw [List.getElem?_append_left hi]
    exact h.request
  · rw [List.take_append_of_le_length (Nat.le_of_lt hi)]
    exact h.absent
  · rw [List.length_append, List.length_singleton] at hle
    -- only what the next request leaves is new
    rcases Nat.lt_or_ge history.length k with hlast | hbefore
    · rw [List.take_of_length_le (by simp; omega)]
      exact hm
    · rw [List.take_append_of_le_length hbefore]
      exact h.present k hk hbefore

/-- A name that the next request puts in comes in last. -/
theorem inserted_concat {v : Option α} (hr : r = .define t x v)
    (ha : (Maps.after history).held t x = none)
    (hm : (Maps.after (history ++ [r])).held t x ≠ none) :
    Inserted (history ++ [r]) t x history.length := by
  refine ⟨⟨v, by simp [hr]⟩, ?_, fun k hk hle => ?_⟩
  · rw [List.take_left]
    exact ha
  · rw [List.take_of_length_le (by simp; omega)]
    exact hm

variable {b b' : Bindings α}

/-- Bindings that lose some of their names and get no new ones go on listing what is held. -/
theorem Lists.keep (h : Lists history t b) (hsub : b'.names.Sublist b.names)
    (hfind : ∀ x, b'.find? x = (Maps.after (history ++ [r])).held t x) :
    Lists (history ++ [r]) t b' := by
  -- what is still listed is still held, so it keeps the place at which it came in
  have hheld : ∀ x ∈ b'.names, (Maps.after (history ++ [r])).held t x ≠ none := by
    intro x hx hnone
    rw [← hfind, Bindings.find?_eq_none_iff] at hnone
    exact hnone hx
  refine ⟨h.distinct.sublist hsub, hfind, fun x hx => ?_, ?_⟩
  · obtain ⟨i, hi⟩ := h.inserted x (hsub.subset hx)
    exact ⟨i, hi.concat (hheld x hx)⟩
  · refine (h.order.sublist hsub).imp_of_mem fun {x y} hx hy hxy => ?_
    obtain ⟨i, j, hlt, hi, hj⟩ := hxy
    exact ⟨i, j, hlt, hi.concat (hheld x hx), hj.concat (hheld y hy)⟩

/-- A new name comes last. -/
theorem Lists.concat (h : Lists history t b) {v : Option α} (hr : r = .define t x v)
    (hx : x ∉ b.names) (hnames : b'.names = b.names ++ [x])
    (hfind : ∀ x, b'.find? x = (Maps.after (history ++ [r])).held t x) :
    Lists (history ++ [r]) t b' := by
  have hheld : ∀ y ∈ b'.names, (Maps.after (history ++ [r])).held t y ≠ none := by
    intro y hy hnone
    rw [← hfind, Bindings.find?_eq_none_iff] at hnone
    exact hnone hy
  have hnew : Inserted (history ++ [r]) t x history.length := by
    refine inserted_concat hr ?_ (hheld x (by simp [hnames]))
    rw [← h.find?_eq, Bindings.find?_eq_none_iff]
    exact hx
  have hold : ∀ y ∈ b.names, ∀ i, Inserted history t y i → Inserted (history ++ [r]) t y i :=
    fun y hy i hi => hi.concat (hheld y (by simp [hnames, hy]))
  refine ⟨?_, hfind, ?_, ?_⟩
  · rw [hnames, ← List.concat_eq_append]
    exact h.distinct.concat hx
  · rw [hnames]
    intro y hy
    rcases List.mem_append.mp hy with hy | hy
    · obtain ⟨i, hi⟩ := h.inserted y hy
      exact ⟨i, hold y hy i hi⟩
    · obtain rfl := List.mem_singleton.mp hy
      exact ⟨_, hnew⟩
  · -- every listed name came in earlier than the next request
    rw [hnames, List.pairwise_append]
    refine ⟨h.order.imp_of_mem fun {y z} hy hz hyz => ?_, List.pairwise_singleton _ _, ?_⟩
    · obtain ⟨i, j, hlt, hi, hj⟩ := hyz
      exact ⟨i, j, hlt, hold y hy i hi, hold z hz j hj⟩
    · intro y hy z hz
      obtain rfl := List.mem_singleton.mp hz
      obtain ⟨i, hi⟩ := h.inserted y hy
      exact ⟨i, _, hi.lt_length, hold y hy i hi, hnew⟩

end Steps

end Store

end Dec
