import Dec.Proofs.Grammar.Dialogue
import Dec.Proofs.Grammar.Numbering

/-!
The machine under other names. Where a builder answers renamed requests by renamed answers, the same
tokens take the machine to the same places, and the outcome is the same up to the names.
-/
namespace Dec.Grammar

structure Renaming (ε ν : Type) where
  node : ν → ν
  table : Nat → Nat
  reason : ε → ε

def Moves (start : Nat) (ids : Nat → Nat) : Prop := ∀ n, start ≤ n → ids (n + 1) = ids n + 1

variable {ε σ ν α β : Type} {limit : Nat}

namespace Renaming

variable (r : Renaming ε ν)

def creation : Creation ν → Creation ν
  | .literal value => .literal value
  | .var name => .var name
  | .binary op left right => .binary op (r.node left) (r.node right)
  | .assign target value => .assign (r.node target) (r.node value)
  | .ret value => .ret (r.node value)
  | .block body table => .block (body.map r.node) (table.map (Table.rename r.table))

def answer : Except ε ν → Except ε ν
  | .ok node => .ok (r.node node)
  | .error reason => .error (r.reason reason)

def paren : Paren ν → Paren ν
  | .left opened => .left opened
  | .right opened left operator => .right opened (r.node left) operator

def phase : Phase ν → Phase ν
  | .program => .program
  | .statement => .statement
  | .assignSign name => .assignSign name
  | .operand head parens => .operand head (parens.map r.paren)
  | .afterLeft head opened left outer => .afterLeft head opened (r.node left) (outer.map r.paren)
  | .afterRight head opened left operator right outer =>
    .afterRight head opened (r.node left) operator (r.node right) (outer.map r.paren)
  | .complete program => .complete (r.node program)

def block (b : OpenBlock ν) : OpenBlock ν :=
  ⟨b.opened, b.table.rename r.table, b.body.map r.node⟩

def state (c : State ν) : State ν :=
  ⟨r.phase c.phase, c.blocks.map r.block, r.table c.nextTable⟩

def failure : Failure ε → Failure ε
  | .fault fault => .fault fault
  | .unknownOperator symbol => .unknownOperator symbol
  | .refused reason => .refused (r.reason reason)

def result : Except (Failure ε) ν → Except (Failure ε) ν
  | .ok node => .ok (r.node node)
  | .error failure => .error (r.failure failure)

def outcome (o : Outcome ε ν) : Outcome ε ν :=
  ⟨r.result o.result, o.consumed, o.openBlocks, r.table o.nextTable⟩

theorem addStatement_state (v : ν) (c : State ν) :
    addStatement (r.node v) (r.state c) = r.state (addStatement v c) := by
  obtain ⟨phase, blocks, next⟩ := c
  cases blocks <;> rfl

theorem declare_state (name : String) (c : State ν) :
    declare name (r.state c) = r.state (declare name c) := by
  obtain ⟨phase, blocks, next⟩ := c
  cases blocks <;> rfl

theorem depth_state (c : State ν) : (r.state c).depth = c.depth := by
  obtain ⟨phase, blocks, next⟩ := c
  rw [State.depth, State.depth, state, List.length_map]
  cases phase <;> simp [Renaming.phase, Phase.parens]

theorem openBlock_state (t : Token) {c : State ν}
    (h : r.table (c.nextTable + 1) = r.table c.nextTable + 1) :
    openBlock t (r.state c) = r.state (openBlock t c) := by
  obtain ⟨phase, blocks, next⟩ := c
  simp only [state, openBlock, List.map_cons, h]
  cases blocks <;> rfl

/-- What the end of the input means does not depend on the names. -/
theorem finish_state (t : Token) (c : State ν) :
    finish t (r.state c) = (finish t c).map r.node := by
  obtain ⟨phase, blocks, next⟩ := c
  cases phase with
  | statement => cases blocks <;> rfl
  | _ => rfl

theorem openAfter_failure (t : Token) (blocks : Nat) (failure : Failure ε) :
    openAfter t blocks (r.failure failure) = openAfter t blocks failure := by
  cases failure <;> rfl

end Renaming

/-- A builder that answers renamed requests by renamed answers, in states that go together. -/
structure Consistent (build : Answer ε σ ν) (r : Renaming ε ν) (rel : σ → σ → Prop) : Prop where
  answer : ∀ creation location s t, rel s t →
    (build (r.creation creation) location t).1 = r.answer (build creation location s).1
  keeps : ∀ creation location s t, rel s t →
    rel (build creation location s).2 (build (r.creation creation) location t).2

inductive EndsLike (r : Renaming ε ν) (post : α → β → Prop) :
    Except (Failure ε) α → Except (Failure ε) β → Prop
  | ok {a : α} {b : β} (h : post a b) : EndsLike r post (.ok a) (.ok b)
  | error (failure : Failure ε) : EndsLike r post (.error failure) (.error (r.failure failure))

def Repeats (r : Renaming ε ν) (rel : σ → σ → Prop) (post : α → β → Prop) (x : Reading ε σ α)
    (y : Reading ε σ β) : Prop :=
  ∀ s t, rel s t → EndsLike r post (x s).1 (y t).1 ∧ rel (x s).2 (y t).2

section Repeats

variable {γ δ : Type} {build : Answer ε σ ν} {r : Renaming ε ν} {rel : σ → σ → Prop}
  {post : α → β → Prop} {post' : γ → δ → Prop}

namespace Repeats

theorem pure {a : α} {b : β} (h : post a b) :
    Repeats r rel post (Pure.pure a : Reading ε σ α) (Pure.pure b) :=
  fun _ _ hs => ⟨.ok h, hs⟩

theorem throw (failure : Failure ε) :
    Repeats r rel post (MonadExcept.throw failure : Reading ε σ α)
      (MonadExcept.throw (r.failure failure)) :=
  fun _ _ hs => ⟨.error failure, hs⟩

theorem bind {x : Reading ε σ α} {y : Reading ε σ β} (h : Repeats r rel post x y)
    {f : α → Reading ε σ γ} {g : β → Reading ε σ δ}
    (hf : ∀ a b, post a b → Repeats r rel post' (f a) (g b)) :
    Repeats r rel post' (x >>= f) (y >>= g) := by
  intro s t hs
  obtain ⟨hend, hrel⟩ := h s t hs
  rcases hx : x s with ⟨a, s₁⟩
  rcases hy : y t with ⟨b, t₁⟩
  rw [hx, hy] at hend hrel
  cases hend with
  | ok h =>
    rw [bind_of_ok hx, bind_of_ok hy]
    exact hf _ _ h s₁ t₁ hrel
  | error failure =>
    rw [bind_of_error hx, bind_of_error hy]
    exact ⟨.error failure, hrel⟩

theorem request (hb : Consistent build r rel) (creation : Creation ν)
    (location : Option Location) :
    Repeats r rel (fun v w => w = r.node v) (Grammar.request build creation location)
      (Grammar.request build (r.creation creation) location) := by
  intro s t hs
  have hanswer := hb.answer creation location s t hs
  have hrel := hb.keeps creation location s t hs
  rcases hx : build creation location s with ⟨reason | v, s₁⟩
  · rcases hy : build (r.creation creation) location t with ⟨answer, t₁⟩
    rw [hx, hy] at hanswer hrel
    obtain rfl := hanswer
    rw [request_of_error hx, request_of_error hy]
    exact ⟨.error (.refused reason), hrel⟩
  · rcases hy : build (r.creation creation) location t with ⟨answer, t₁⟩
    rw [hx, hy] at hanswer hrel
    obtain rfl := hanswer
    rw [request_of_ok hx, request_of_ok hy]
    exact ⟨.ok rfl, hrel⟩

end Repeats

end Repeats

section Machine

variable {build : Answer ε σ ν} {r : Renaming ε ν} {rel : σ → σ → Prop} {start : Nat}

structure Renamed (r : Renaming ε ν) (start : Nat) (c c' : State ν) : Prop where
  state_eq : c' = r.state c
  start_le : start ≤ c.nextTable

variable {c c' : State ν}

theorem renamed_addStatement (h : start ≤ c.nextTable) {v w : ν} (hv : w = r.node v) :
    Renamed r start (addStatement v c) (addStatement w (r.state c)) := by
  subst hv
  refine ⟨r.addStatement_state v c, ?_⟩
  obtain ⟨phase, blocks, next⟩ := c
  cases blocks <;> exact h

theorem le_nextTable_declare (name : String) (h : start ≤ c.nextTable) :
    start ≤ (declare name c).nextTable := by
  obtain ⟨phase, blocks, next⟩ := c
  cases blocks <;> exact h

theorem finishOperand_repeats (hb : Consistent build r rel) (hc : start ≤ c.nextTable) (head : Head)
    {v w : ν} (hv : w = r.node v) (parens : List (Paren ν)) :
    Repeats r rel (Renamed r start) (finishOperand build head v c parens)
      (finishOperand build head w (r.state c) (parens.map r.paren)) := by
  subst hv
  cases parens with
  | nil =>
    cases head with
    | assign name =>
      refine (Repeats.request hb (.var name.lexeme) name.location).bind fun target target' ht => ?_
      subst ht
      refine (Repeats.request hb (.assign target v) name.location).bind fun s s' hs => .pure ?_
      rw [r.declare_state]
      exact renamed_addStatement (le_nextTable_declare _ hc) hs
    | ret word =>
      exact (Repeats.request hb (.ret v) word.location).bind fun s s' hs =>
        .pure (renamed_addStatement hc hs)
  | cons paren outer =>
    cases paren with
    | left opened => exact .pure ⟨rfl, hc⟩
    | right opened left operator => exact .pure ⟨rfl, hc⟩

theorem closeBlock_repeats (hb : Consistent build r rel) (hc : start ≤ c.nextTable) :
    Repeats r rel (Renamed r start) (closeBlock build c) (closeBlock build (r.state c)) := by
  obtain ⟨phase, blocks, next⟩ := c
  cases blocks with
  | nil => exact .pure ⟨rfl, hc⟩
  | cons b outer =>
    -- the statements are kept with the last one first, and asked for with the first one first
    have hcreation : Creation.block (r.block b).body.reverse (some (r.block b).table) =
        r.creation (.block b.body.reverse (some b.table)) := by
      rw [Renaming.creation, List.map_reverse]
      rfl
    have hrequest : Repeats r rel (fun v w => w = r.node v)
        (request build (.block b.body.reverse (some b.table)) b.opened.location)
        (request build (.block (r.block b).body.reverse (some (r.block b).table))
          b.opened.location) := by
      rw [hcreation]
      exact .request hb _ _
    exact hrequest.bind fun v w hv => .pure (renamed_addStatement (c := ⟨phase, outer, next⟩) hc hv)

theorem deeper_repeats {next next' : State ν} (h : Renamed r start next next') (c : State ν)
    (t : Token) :
    Repeats r rel (Renamed r start)
      (if c.depth < limit then pure next else reject (.tooDeep t) : Reading ε σ (State ν))
      (if (r.state c).depth < limit then pure next' else reject (.tooDeep t)) := by
  rw [r.depth_state]
  split
  · exact .pure h
  · exact .throw (.fault _)

/-- A token takes the machine the same way under other names. -/
theorem step_repeats (hb : Consistent build r rel) (hr : Moves start r.table) (t : Token)
    (hc : start ≤ c.nextTable) :
    Repeats r rel (Renamed r start) (step limit build t c) (step limit build t (r.state c)) := by
  -- a new table takes the next number on both sides
  have hopen : Renamed r start (openBlock t c) (openBlock t (r.state c)) :=
    ⟨r.openBlock_state t (hr _ hc), Nat.le_succ_of_le hc⟩
  have hdeeper : Repeats r rel (Renamed r start)
      (if c.depth < limit then pure (openBlock t c) else reject (.tooDeep t)) _ :=
    deeper_repeats hopen c t
  have hclose := closeBlock_repeats hb hc
  have hfinish (head : Head) (v w : ν) (hv : w = r.node v) (parens : List (Paren ν)) :=
    finishOperand_repeats hb hc head hv parens
  obtain ⟨phase, blocks, next⟩ := c
  cases phase with
  | program =>
    simp only [Renaming.state, Renaming.phase, step]
    split
    · exact hdeeper
    · exact .throw (.fault _)
  | statement =>
    simp only [Renaming.state, Renaming.phase, step]
    split
    · exact hclose
    · exact hdeeper
    · exact .pure ⟨rfl, hc⟩
    · exact .pure ⟨rfl, hc⟩
    all_goals exact .throw (.fault _)
  | assignSign name =>
    simp only [Renaming.state, Renaming.phase, step]
    split
    · exact .pure ⟨rfl, hc⟩
    all_goals exact .throw (.fault _)
  | operand head parens =>
    simp only [Renaming.state, Renaming.phase, step]
    split
    · exact (Repeats.request hb _ _).bind fun v w hv => hfinish head v w hv parens
    · exact (Repeats.request hb _ _).bind fun v w hv => hfinish head v w hv parens
    · exact (Repeats.request hb _ _).bind fun v w hv => hfinish head v w hv parens
    · have hparen : Renamed r start ⟨.operand head (.left t :: parens), blocks, next⟩
          (r.state ⟨.operand head (.left t :: parens), blocks, next⟩) := ⟨rfl, hc⟩
      exact deeper_repeats hparen ⟨.operand head parens, blocks, next⟩ t
    all_goals exact .throw (.fault _)
  | afterLeft head opened left outer =>
    simp only [Renaming.state, Renaming.phase, step]
    split
    · exact hfinish head left _ rfl outer
    · exact .pure ⟨rfl, hc⟩
    all_goals exact .throw (.fault _)
  | afterRight head opened left operator right outer =>
    simp only [Renaming.state, Renaming.phase, step]
    split
    · simp only [requestOperator]
      split
      · exact (Repeats.request hb _ _).bind fun v w hv => hfinish head v w hv outer
      · exact .throw (.unknownOperator _)
    · exact .throw (.fault _)
  | complete program => exact .throw (.fault _)

/-- Any tokens lead to the same outcome under other names. -/
theorem run_repeats (hb : Consistent build r rel) (hr : Moves start r.table) (endToken : Token)
    (ts : List Token) (consumed : Nat) (hc : start ≤ c.nextTable) {s t : σ} (hs : rel s t) :
    (run limit build endToken consumed (r.state c) t ts).1 =
        r.outcome (run limit build endToken consumed c s ts).1 ∧
      rel (run limit build endToken consumed c s ts).2
        (run limit build endToken consumed (r.state c) t ts).2 := by
  induction ts generalizing c s t consumed with
  | nil =>
    refine ⟨?_, hs⟩
    simp only [run, Renaming.outcome, r.finish_state]
    cases finish endToken c <;> simp [Except.map, Renaming.result, Renaming.failure, Renaming.state]
  | cons u ts ih =>
    obtain ⟨hend, hrel⟩ := step_repeats hb hr u hc s t hs
    rcases hx : step limit build u c s with ⟨x, s₁⟩
    rcases hy : step limit build u (r.state c) t with ⟨y, t₁⟩
    rw [hx, hy] at hend hrel
    rw [run, run, hx, hy]
    -- both sides go on or both of them stop
    cases hend with
    | ok h =>
      obtain ⟨rfl, hle⟩ := h
      exact ih (consumed + 1) hle hrel
    | error failure =>
      refine ⟨?_, hrel⟩
      have hblocks : (r.state c).blocks.length = c.blocks.length := List.length_map ..
      simp only [Renaming.outcome, Renaming.result, r.openAfter_failure, hblocks]
      cases failure <;> rfl

/-- A whole reading with its tables numbered from elsewhere has the same outcome under other names. -/
theorem parse_repeats (limit : Nat) (hb : Consistent build r rel) {firstTable : Nat}
    (hr : Moves firstTable r.table) (tokens : List Token) {s t : σ} (hs : rel s t) :
    (parse limit build tokens (r.table firstTable) t).1 =
        r.outcome (parse limit build tokens firstTable s).1 ∧
      rel (parse limit build tokens firstTable s).2
        (parse limit build tokens (r.table firstTable) t).2 := by
  rw [parse_eq_run, parse_eq_run]
  exact run_repeats (c := ⟨.program, [], firstTable⟩) hb hr _ _ 0 (Nat.le_refl _) hs

end Machine

end Dec.Grammar
