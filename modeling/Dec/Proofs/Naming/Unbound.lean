import Dec.Proofs.Naming.Lockstep

namespace Dec

section Start

variable {strict : Prop} {predeclared : List String} {bindings : List (String × Option Scalar)}

def HasValue (bindings : List (String × Option Scalar)) (x : String) : Prop :=
  (Bindings.ofPairs bindings).hasValue x

theorem lockstep_start (hsub : ∀ x ∈ predeclared, HasValue bindings x)
    (hsup : strict → ∀ x, HasValue bindings x → x ∈ predeclared) :
    Lockstep strict [.ofPairs (predeclared.map fun name => (name, none))] [.ofPairs bindings] := by
  refine ⟨?_, ?_, fun hne => absurd rfl hne, trivial⟩
  · intro x hx
    exact hsub x ((Bindings.contains_ofPairs x none predeclared).mp hx)
  · intro he x hx
    exact (Bindings.contains_ofPairs x none predeclared).mpr (hsup he x hx)

theorem agree_start (strict : Prop) (budget : Nat) (f : Forest) {n : Node}
    (hn : n.wellPlaced = true) (hsub : ∀ x ∈ predeclared, HasValue bindings x)
    (hsup : strict → ∀ x, HasValue bindings x → x ∈ predeclared) :
    Agree strict (n.eval n.location budget ⟨[.ofPairs bindings], false, []⟩)
      (n.checkNames f n.location budget none
        ⟨[.ofPairs (predeclared.map fun name => (name, none))], []⟩) :=
  n.eval_agree_checkNames hn (Nat.le_refl _) none rfl (lockstep_start hsub hsup)

theorem evaluate_eq (budget : Nat) (n : Node) (bindings : List (String × Option Scalar)) :
    evaluate budget n bindings =
      (n.eval n.location budget ⟨[.ofPairs bindings], false, []⟩).1 := by
  simp only [evaluate, Evaluator.evaluate, Evaluator.initial]
  split <;> simp_all

theorem analyzeNames_fst (budget : Nat) (f : Forest) (n : Node) (predeclared : List String) :
    (analyzeNames budget f n predeclared).1 =
      (n.checkNames f n.location budget none
        ⟨[.ofPairs (predeclared.map fun name => (name, none))], []⟩).1 := rfl

end Start

/-- Name analysis and evaluation agree on variables without a value, whatever else goes wrong. A
program that passes the analysis misses none of its variables when it runs. Where just the names with
a value are predeclared, the analysis objects to the variable that a run misses, in the same place,
and a program without returns that it objects to has no value. -/
theorem analyzeNames_agrees_with_evaluate (budget : Nat) (f : Forest) (n : Node)
    (hn : n.wellPlaced = true) (predeclared : List String)
    (bindings : List (String × Option Scalar)) :
    ((analyzeNames budget f n predeclared).1 = .ok () → (∀ x ∈ predeclared, HasValue bindings x) →
      ∀ x l, evaluate budget n bindings ≠ .error (.unbound x l)) ∧
    ((∀ x, x ∈ predeclared ↔ HasValue bindings x) →
      ∀ x l, evaluate budget n bindings = .error (.unbound x l) →
        ∃ similar later,
          (analyzeNames budget f n predeclared).1 = .error (.undeclared x l similar later)) ∧
    ((∀ x, x ∈ predeclared ↔ HasValue bindings x) → n.returnFree = true →
      (∃ fault, (analyzeNames budget f n predeclared).1 = .error fault) →
        ∃ fault, evaluate budget n bindings = .error fault) := by
  rw [evaluate_eq, analyzeNames_fst]
  refine ⟨?_, ?_, ?_⟩
  -- where a run misses a variable, an analysis that passes is not one of the ways to agree
  · intro hok hsub x l hev
    have h := agree_start False budget f hn hsub False.elim
    generalize n.eval n.location budget ⟨[.ofPairs bindings], false, []⟩ = value at h hev
    generalize n.checkNames f n.location budget none
      ⟨[.ofPairs (predeclared.map fun name => (name, none))], []⟩ = check at h hok
    cases h with
    | returned h => cases hev
    | both h => cases hev
    | early h => cases hok
    | unbound => cases hok
    | otherwise h => exact h x l (Except.error.inj hev)
  -- just the names with a value are predeclared: the agreement is strict
  · intro hp x l hev
    have h := agree_start True budget f hn (fun x hx => (hp x).mp hx)
      fun _ x hx => (hp x).mpr hx
    generalize n.eval n.location budget ⟨[.ofPairs bindings], false, []⟩ = value at h hev
    generalize n.checkNames f n.location budget none
      ⟨[.ofPairs (predeclared.map fun name => (name, none))], []⟩ = check at h ⊢
    cases h with
    | returned h => cases hev
    | both h => cases hev
    | early h => exact (h trivial).elim
    | unbound =>
      obtain ⟨rfl, rfl⟩ := EvalFault.unbound.inj (Except.error.inj hev)
      exact ⟨_, _, rfl⟩
    | otherwise h => exact (h x l (Except.error.inj hev)).elim
  -- without returns the run gets as far as the analysis
  · rintro hp hfree ⟨fault, hbad⟩
    have h := agree_start True budget f hn (fun x hx => (hp x).mp hx)
      fun _ x hx => (hp x).mpr hx
    have hflag := n.eval_returning_of_returnFree hfree n.location budget
      ⟨[.ofPairs bindings], false, []⟩
    generalize n.eval n.location budget ⟨[.ofPairs bindings], false, []⟩ = value at h hflag ⊢
    generalize n.checkNames f n.location budget none
      ⟨[.ofPairs (predeclared.map fun name => (name, none))], []⟩ = check at h hbad
    cases h with
    | returned h => cases h.symm.trans hflag
    | both h => cases hbad
    | early h => exact (h trivial).elim
    | unbound => exact ⟨_, rfl⟩
    | otherwise h => exact ⟨_, rfl⟩

/-- A block that assigns `x` and then returns `y`, which only a binding could give a value. -/
theorem analyzeNames_agrees_on_returned_name :
    ∃ similar later,
      (analyzeNames 4 .empty
        (.block ⟨0, none⟩ ⟨0, none, 0, .empty⟩
          [.assign ⟨1, none⟩ ⟨2, none⟩ "x" (.var ⟨3, none⟩ "z"),
            .ret ⟨4, none⟩ (.var ⟨5, some ⟨"f", 2, 10, 20⟩⟩ "y")])
        ["z"]).1 = .error (.undeclared "y" (some ⟨"f", 2, 10, 20⟩) similar later) := by
  have hagree := analyzeNames_agrees_with_evaluate 4 .empty
    (.block ⟨0, none⟩ ⟨0, none, 0, .empty⟩
      [.assign ⟨1, none⟩ ⟨2, none⟩ "x" (.var ⟨3, none⟩ "z"),
        .ret ⟨4, none⟩ (.var ⟨5, some ⟨"f", 2, 10, 20⟩⟩ "y")])
    (by decide) ["z"] [("z", some (.number (.int 2)))]
  refine hagree.2.1 ?_ "y" _ (by rfl)
  intro x
  have hz : HasValue [("z", some (.number (.int 2)))] x ↔ x = "z" ∨ Bindings.empty.hasValue x :=
    Bindings.hasValue_define
  have hempty : ¬ Bindings.empty.hasValue x := by
    rintro ⟨v, hv⟩
    cases hv
  rw [hz, List.mem_singleton, or_iff_left hempty]

end Dec
