import Dec.Grammar.Machine
import Mathlib.Data.List.ReduceOption

namespace Dec

namespace Creation

/-- The statements that a builder gives to a block before it finds one missing. -/
def takenInVain (b : Builder) : Creation (Option Node) → List Node
  | .block body _ =>
    match b with
    | .making | .recording => (body.takeWhile Option.isSome).reduceOption
    | .skipping | .refusing => []
  | _ => []

end Creation

namespace Forest

/-- Whoever is asked for in the list belongs to the owner that takes it, and all others belong to whom
they did. -/
theorem owner?_adopt (f : Forest) (owner : Owner) (child : Node) (id : Nat) :
    (f.adopt owner child).owner? id = if id = child.id then some owner else f.owner? id := by
  rw [owner?, adopt, List.lookup_cons]
  by_cases hid : id = child.id
  · rw [if_pos hid, beq_iff_eq.mpr hid]
  · rw [if_neg hid, beq_false_of_ne hid]
    rfl

/-- A block takes its statements from the first on, up to one that is missing. -/
theorem owner?_adoptAll (owner : Owner) (body : List (Option Node)) (f : Forest) (id : Nat) :
    (f.adoptAll owner body).2.owner? id =
      if id ∈ ((body.takeWhile Option.isSome).reduceOption).map Node.id then some owner
      else f.owner? id := by
  induction body generalizing f with
  | nil => rfl
  | cons part rest ih =>
    cases part with
    | none => rfl
    | some child =>
      have htaken : ((some child :: rest).takeWhile Option.isSome).reduceOption =
          child :: (rest.takeWhile Option.isSome).reduceOption := rfl
      have hrest : (f.adoptAll owner (some child :: rest)).2 =
          ((f.adopt owner child).adoptAll owner rest).2 := rfl
      rw [htaken, hrest, ih, owner?_adopt]
      -- a later statement may be the same node, and belongs to the same block then
      by_cases hchild : id = child.id
      · simp [hchild]
      · simp [hchild]

/-- A block gets a new identity and a table, and then it takes its statements. -/
theorem make_block (f : Forest) (location : Option Location) (body : List (Option Node))
    (table : Option Table) :
    ∃ (t : Table) (g : Forest), g.owners = f.owners ∧ f.make location (.block body table) =
      match g.adoptAll ⟨f.nextNode, some t⟩ body with
      | (some body, f') => (.ok (.block ⟨f.nextNode, location⟩ t body), f')
      | (none, f') => (.error (.missingPart "BlockStmt" "statement"), f') := by
  cases table with
  | none => exact ⟨_, ((f.newTag location).2.newTable none .empty).2, rfl, rfl⟩
  | some t => exact ⟨t, (f.newTag location).2, rfl, rfl⟩

variable {f f' : Forest} {location : Option Location}

/-- A request that is not met leaves each node with its owner, up to the statements that were given to
a block in vain. -/
theorem owner?_make_of_error {request : Creation (Option Node)} {fault : BuildFault}
    (h : f.make location request = (.error fault, f')) :
    ∃ table, ∀ id, f'.owner? id =
      if id ∈ (request.takenInVain .making).map Node.id then some ⟨f.nextNode, some table⟩
      else f.owner? id := by
  -- other requests than those for blocks give the forest back as it was
  have hsame (hf : f' = f) : ∃ table, ∀ id, f'.owner? id =
      if id ∈ ([] : List Node).map Node.id then some ⟨f.nextNode, some table⟩
      else f.owner? id := by
    refine ⟨default, fun id => ?_⟩
    rw [hf, List.map_nil, if_neg List.not_mem_nil]
  cases request with
  | literal value =>
    apply hsame
    simp only [make] at h
    split at h
    · cases h
    · split at h
      · cases h
      · exact (Prod.mk.inj h).2.symm
    · exact (Prod.mk.inj h).2.symm
  | var name => cases h
  | binary op left right =>
    apply hsame
    cases left with
    | none => exact (Prod.mk.inj h).2.symm
    | some left =>
      cases right with
      | none => exact (Prod.mk.inj h).2.symm
      | some right => cases h
  | assign target value =>
    apply hsame
    simp only [make] at h
    split at h
    · cases h
    · exact (Prod.mk.inj h).2.symm
    · exact (Prod.mk.inj h).2.symm
  | ret value =>
    apply hsame
    cases value with
    | none => exact (Prod.mk.inj h).2.symm
    | some value => cases h
  | block body table =>
    obtain ⟨t, g, howners, hmake⟩ := f.make_block location body table
    rw [hmake] at h
    split at h
    · cases h
    · rename_i left hadopt
      have hleft : f' = (g.adoptAll ⟨f.nextNode, some t⟩ body).2 :=
        (Prod.mk.inj h).2.symm.trans (congrArg Prod.snd hadopt).symm
      refine ⟨t, fun id => ?_⟩
      rw [hleft, owner?_adoptAll, owner?, owner?, howners]
      rfl

end Forest

namespace Builder

variable {b : Builder} {f f' : Forest} {location : Option Location}

/-- A request fails where the builder refuses all of them, or where the node cannot be made. -/
theorem create_eq_error {request : Creation (Option Node)} {fault : BuildFault}
    (h : b.create request location f = (.error fault, f')) :
    (b = .refusing ∧ f' = f) ∨
      ∃ g : Forest, g.owners = f.owners ∧ g.nextNode = f.nextNode ∧
        g.make location request = (.error fault, f') ∧
        request.takenInVain b = request.takenInVain .making := by
  have hmade (g : Forest) (h : ((g.make location request).1.map some, (g.make location request).2) =
      (.error fault, f')) : g.make location request = (.error fault, f') := by
    rcases hmake : g.make location request with ⟨reason | n, left⟩
    · rw [hmake] at h
      cases h
      rfl
    · rw [hmake] at h
      cases h
  cases b with
  | making => exact Or.inr ⟨f, rfl, rfl, hmade f h, rfl⟩
  | skipping => cases h
  | refusing => exact Or.inl ⟨rfl, (Prod.mk.inj h).2.symm⟩
  | recording =>
    -- the request is on record then, which is nobody's owner
    have hrecorded := hmade { f with record := ⟨request, location⟩ :: f.record } h
    refine Or.inr ⟨{ f with record := ⟨request, location⟩ :: f.record }, rfl, rfl, hrecorded, ?_⟩
    cases request <;> rfl

/-- A request that fails leaves each node with its owner, up to the statements that were given to a
block in vain. -/
theorem owner?_create_of_error {request : Creation (Option Node)} {fault : BuildFault}
    (h : b.create request location f = (.error fault, f')) :
    ∃ table, ∀ id, f'.owner? id =
      if id ∈ (request.takenInVain b).map Node.id then some ⟨f.nextNode, some table⟩
      else f.owner? id := by
  rcases create_eq_error h with ⟨rfl, rfl⟩ | ⟨g, howners, hnext, hmake, htaken⟩
  · have hnone : request.takenInVain .refusing = [] := by cases request <;> rfl
    refine ⟨default, fun id => ?_⟩
    rw [hnone, List.map_nil, if_neg List.not_mem_nil]
  · obtain ⟨table, hleft⟩ := Forest.owner?_make_of_error hmake
    refine ⟨table, fun id => ?_⟩
    rw [hleft, htaken, hnext]
    rw [Forest.owner?, Forest.owner?, howners]

/-- What a builder leaves of its forest when it does not meet a request. Every node belongs to whom it
did before; only the statements in front of a missing one belong to the block that was asked for,
which has a new identity and is never made. An operator that is asked for by its sign takes nothing,
whether the sign means one or not. -/
theorem owner?_of_refusal {request : Creation (Option Node)} {fault : BuildFault}
    (h : b.create request location f = (.error fault, f')) :
    (∃ table, ∀ id, f'.owner? id =
      if id ∈ (request.takenInVain b).map Node.id then some ⟨f.nextNode, some table⟩
      else f.owner? id) ∧
    ∀ symbol left right failure g,
      Grammar.requestOperator b.create symbol left right location f = (.error failure, g) →
      ∀ id, g.owner? id = f.owner? id := by
  refine ⟨owner?_create_of_error h, ?_⟩
  intro symbol left right failure g hsign id
  rw [Grammar.requestOperator] at hsign
  cases hop : BinaryOp.ofSymbol? symbol with
  | none =>
    -- nobody asks the builder
    rw [hop] at hsign
    rw [← (Prod.mk.inj hsign).2]
  | some op =>
    rw [hop] at hsign
    dsimp only [Grammar.request] at hsign
    rcases hasked : b.create (.binary op left right) location f with ⟨reason | n, left'⟩
    · rw [hasked] at hsign
      obtain ⟨table, howner⟩ := owner?_create_of_error hasked
      have hg : left' = g := (Prod.mk.inj hsign).2
      rw [← hg, howner]
      exact if_neg List.not_mem_nil
    · rw [hasked] at hsign
      cases hsign

/-- A value that is missing leaves the target of an assignment with the one that it belongs to. -/
theorem owner?_of_refusal_missing_value :
    ∃ (x one s : Node) (f₁ f₂ f₃ f₄ : Forest),
      making.create (.var "x") none .empty = (.ok (some x), f₁) ∧
      making.create (.literal (some (.number (.int 1)))) none f₁ = (.ok (some one), f₂) ∧
      making.create (.assign (some x) (some one)) none f₂ = (.ok (some s), f₃) ∧
      making.create (.assign (some x) none) none f₃ =
        (.error (.missingPart "AssignmentStmt" "value"), f₄) ∧
      f₄.owner? x.id = some ⟨s.id, none⟩ := by
  refine ⟨_, _, _, _, _, _, _, rfl, rfl, rfl, rfl, ?_⟩
  -- the target and the value belong to the first assignment
  let owners : List (Nat × Owner) := [(1, ⟨2, none⟩), (0, ⟨2, none⟩)]
  have hrefused : making.create (.assign (some (.var ⟨0, none⟩ "x")) none) none ⟨3, 0, owners, []⟩ =
      (.error (.missingPart "AssignmentStmt" "value"), ⟨3, 0, owners, []⟩) := rfl
  obtain ⟨⟨table, howner⟩, -⟩ := owner?_of_refusal hrefused
  exact (howner 0).trans rfl

/-- A block that one statement is missing of takes another one from the block that it belongs to. -/
theorem owner?_taken_in_vain :
    ∃ (x r whole : Node) (f₁ f₂ f₃ f₄ : Forest),
      making.create (.var "x") none .empty = (.ok (some x), f₁) ∧
      making.create (.ret (some x)) none f₁ = (.ok (some r), f₂) ∧
      making.create (.block [some r] none) none f₂ = (.ok (some whole), f₃) ∧
      making.create (.block [some r, none] none) none f₃ =
        (.error (.missingPart "BlockStmt" "statement"), f₄) ∧
      (f₃.owner? r.id).map Owner.id = some whole.id ∧
      (f₄.owner? r.id).map Owner.id ≠ some whole.id :=
  ⟨_, _, _, _, _, _, _, rfl, rfl, rfl, rfl, rfl, by decide⟩

end Builder

end Dec
