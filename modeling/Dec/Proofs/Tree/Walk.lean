namespace Dec

variable {ε α β σ : Type}

/-- Goes on after a walk that went through; after a fault the state is settled and kept. -/
def goOn (walk : Except ε α × σ) (settle : σ → σ) (next : α → σ → Except ε β × σ) :
    Except ε β × σ :=
  match walk with
  | (.error fault, s) => (.error fault, settle s)
  | (.ok a, s) => next a s

/-- What both ways of going on keep is kept. -/
theorem goOn_snd {walk : Except ε α × σ} {settle : σ → σ} {next : α → σ → Except ε β × σ}
    (keeps : σ → Prop) (hs : ∀ s, walk.2 = s → keeps (settle s))
    (hn : ∀ a s, walk = (.ok a, s) → keeps (next a s).2) : keeps (goOn walk settle next).2 := by
  rcases walk with ⟨fault | a, s⟩
  · exact hs s rfl
  · exact hn a s rfl

/-- A walk that goes on has no fault that neither of its parts has. -/
theorem goOn_ne_error {walk : Except ε α × σ} {settle : σ → σ} {next : α → σ → Except ε β × σ}
    {fault : ε} (hw : walk.1 ≠ .error fault) (hn : ∀ a s, (next a s).1 ≠ .error fault) :
    (goOn walk settle next).1 ≠ .error fault := by
  rcases walk with ⟨fault | a, s⟩
  · exact fun h => hw (congrArg Except.error (Except.error.inj h))
  · exact hn a s

/-- A walk that goes on fails before or after. -/
theorem goOn_fst_eq_error {walk : Except ε α × σ} {settle : σ → σ}
    {next : α → σ → Except ε β × σ} {fault : ε} (h : (goOn walk settle next).1 = .error fault) :
    walk.1 = .error fault ∨ ∃ a s, walk = (.ok a, s) ∧ (next a s).1 = .error fault := by
  rcases walk with ⟨e | a, s⟩
  · exact .inl (congrArg Except.error (Except.error.inj h))
  · exact .inr ⟨a, s, rfl, h⟩

/-- Going on depends on how it goes on after the walk that was taken only. -/
theorem goOn_congr {walk : Except ε α × σ} {settle : σ → σ}
    {next next' : α → σ → Except ε β × σ} (hn : ∀ a s, walk = (.ok a, s) → next a s = next' a s) :
    goOn walk settle next = goOn walk settle next' := by
  rcases walk with ⟨fault | a, s⟩
  · rfl
  · exact hn a s rfl

/-- To go on with what was found is to go no further. -/
theorem goOn_ok (walk : Except ε α × σ) : goOn walk (fun s => s) (fun a s => (.ok a, s)) = walk := by
  rcases walk with ⟨fault | a, s⟩
  · rfl
  · rfl

def SameWalk {ε' υ : Type} (view : ε → ε') (see : σ → υ) (walk walk' : Except ε α × σ) : Prop :=
  walk.1.mapError view = walk'.1.mapError view ∧ see walk.2 = see walk'.2

/-- Going on keeps two walks the same. -/
theorem SameWalk.goOn {ε' υ : Type} {view : ε → ε'} {see : σ → υ} {walk walk' : Except ε α × σ}
    (h : SameWalk view see walk walk') {settle settle' : σ → σ}
    {next next' : α → σ → Except ε β × σ}
    (hs : ∀ s s', see s = see s' → see (settle s) = see (settle' s'))
    (hn : ∀ a s s', see s = see s' → SameWalk view see (next a s) (next' a s')) :
    SameWalk view see (goOn walk settle next) (goOn walk' settle' next') := by
  obtain ⟨hfound, hstate⟩ := h
  rcases walk with ⟨fault | a, s⟩
  · rcases walk' with ⟨fault' | a', s'⟩
    · exact ⟨congrArg Except.error (Except.error.inj hfound), hs _ _ hstate⟩
    · cases hfound
  · rcases walk' with ⟨fault' | a', s'⟩
    · cases hfound
    · obtain rfl := Except.ok.inj hfound
      exact hn _ _ _ hstate

end Dec
