import Dec.Scope

namespace Dec.Bindings

variable {α : Type} (b : Bindings α) (name x : String) (value : Option α)

theorem lookup_cons_eq (y : String) (w : Option α) (rest : List (String × Option α)) :
    ((y, w) :: rest).lookup x = if x = y then some w else rest.lookup x := by
  rw [List.lookup_cons]
  by_cases hx : x = y
  · rw [if_pos hx, beq_iff_eq.mpr hx]
  · rw [if_neg hx, beq_false_of_ne hx]

theorem lookup_setEntry (entries : List (String × Option α)) :
    (setEntry name value entries).lookup x =
      if x = name then some value else entries.lookup x := by
  induction entries with
  | nil => rw [setEntry, lookup_cons_eq]
  | cons entry rest ih =>
    obtain ⟨y, w⟩ := entry
    rw [setEntry]
    by_cases hy : y = name
    · rw [if_pos hy, lookup_cons_eq, lookup_cons_eq, hy]
      split <;> rfl
    · rw [if_neg hy, lookup_cons_eq, lookup_cons_eq, ih]
      by_cases hx : x = y
      · rw [if_pos hx, if_pos hx, if_neg (hx ▸ hy)]
      · rw [if_neg hx, if_neg hx]

theorem find?_define :
    (b.define name value).find? x = if x = name then some value else b.find? x :=
  lookup_setEntry name x value b.entries

theorem contains_define :
    (b.define name value).contains x = (decide (x = name) || b.contains x) := by
  rw [contains, find?_define]
  by_cases hx : x = name
  · simp [hx]
  · simp [hx, contains]

/-- A list of names binds just these names. -/
theorem contains_ofPairs (names : List String) :
    (ofPairs (names.map fun n => (n, value))).contains x = true ↔ x ∈ names := by
  -- the names are bound one after another, so the induction is over any scope to start from
  have hfold : ∀ (names : List String) (b : Bindings α),
      ((names.map fun n => (n, value)).foldl (fun b p => b.define p.1 p.2) b).contains x = true ↔
        x ∈ names ∨ b.contains x = true := by
    intro names
    induction names with
    | nil => exact fun b => by simp
    | cons n rest ih =>
      intro b
      rw [List.map_cons, List.foldl_cons, ih, contains_define, Bool.or_eq_true, decide_eq_true_iff,
        List.mem_cons]
      constructor
      · rintro (h | h | h)
        · exact .inl (.inr h)
        · exact .inl (.inl h)
        · exact .inr h
      · rintro ((h | h) | h)
        · exact .inr (.inl h)
        · exact .inl h
        · exact .inr (.inr h)
  rw [ofPairs, hfold]
  simp [contains, find?, empty]

section Holds

variable (P : α → Prop)

def Holds (b : Bindings α) : Prop := ∀ name value, (name, some value) ∈ b.entries → P value

variable {P} {b : Bindings α}

theorem holds_empty : empty.Holds P := by
  intro name value h
  cases h

theorem mem_setEntry {name : String} {value : Option α} {p : String × Option α}
    {entries : List (String × Option α)} (h : p ∈ setEntry name value entries) :
    p = (name, value) ∨ p ∈ entries := by
  induction entries with
  | nil => exact Or.inl (List.mem_singleton.mp h)
  | cons entry rest ih =>
    rw [setEntry] at h
    split at h
    · rcases List.mem_cons.mp h with rfl | h
      · exact Or.inl rfl
      · exact Or.inr (List.mem_cons_of_mem _ h)
    · rcases List.mem_cons.mp h with rfl | h
      · exact Or.inr List.mem_cons_self
      · exact (ih h).imp_right (List.mem_cons_of_mem _)

theorem Holds.define (h : b.Holds P) {name : String} {value : Option α}
    (hv : ∀ v, value = some v → P v) : (b.define name value).Holds P := by
  intro x v hx
  rcases mem_setEntry hx with he | hx
  · exact hv v (Prod.mk.inj he).2.symm
  · exact h x v hx

theorem holds_ofPairs {pairs : List (String × Option α)}
    (hp : ∀ name v, (name, some v) ∈ pairs → P v) : (ofPairs pairs).Holds P := by
  -- the pairs are bound one after another, so the induction is over any scope to start from
  have hfold : ∀ b : Bindings α, b.Holds P →
      (pairs.foldl (fun b p => b.define p.1 p.2) b).Holds P := by
    induction pairs with
    | nil => exact fun b hb => hb
    | cons p rest ih =>
      intro b hb
      refine ih (fun name v hv => hp name v (List.mem_cons_of_mem _ hv)) _ (hb.define ?_)
      rintro v hv
      refine hp p.1 v ?_
      rw [← hv]
      exact List.mem_cons_self
  exact hfold empty holds_empty

theorem Holds.of_find? (h : b.Holds P) {name : String} {value : α}
    (hv : b.find? name = some (some value)) : P value := by
  obtain ⟨front, back, he, -⟩ := List.lookup_eq_some_iff.mp hv
  refine h name value ?_
  rw [he]
  simp

end Holds

end Dec.Bindings

namespace Dec.Chain

variable {α : Type} (b : Bindings α) (outer : Chain α) (x : String)

theorem contains_cons : contains (b :: outer) x = (b.contains x || contains outer x) := by
  rw [contains, find?, Bindings.contains]
  cases b.find? x with
  | none => rfl
  | some w => rfl

section Holds

def Holds (P : α → Prop) (c : Chain α) : Prop := ∀ b ∈ c, Bindings.Holds P b

variable {P : α → Prop} {c : Chain α}

theorem Holds.define (h : Holds P c) {name : String} {value : α} (hv : P value) :
    Holds P (c.define name (some value)) := by
  cases c with
  | nil => exact h
  | cons b outer =>
    obtain ⟨hb, houter⟩ := List.forall_mem_cons.mp h
    refine List.forall_mem_cons.mpr ⟨hb.define ?_, houter⟩
    rintro v hvalue
    obtain rfl := Option.some.inj hvalue
    exact hv

theorem Holds.of_find? (h : Holds P c) {name : String} {value : α}
    (hv : c.find? name = some (some value)) : P value := by
  induction c with
  | nil => cases hv
  | cons b outer ih =>
    obtain ⟨hb, houter⟩ := List.forall_mem_cons.mp h
    rw [find?] at hv
    cases hfound : b.find? name with
    | none =>
      rw [hfound] at hv
      exact ih houter hv
    | some w =>
      rw [hfound] at hv
      obtain rfl := Option.some.inj hv
      exact hb.of_find? hfound

end Holds

end Dec.Chain
